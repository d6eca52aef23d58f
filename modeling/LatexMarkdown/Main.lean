import LatexMarkdown.CommandLine

/-!
# The program

The command line with the files and streams of the system.
-/

namespace LatexMarkdown.CommandLine

/-- The message of a failed operation on a file. -/
def failureMessage (error : IO.Error) : Text :=
  match error with
  | .noFileOrDirectory .. => missingFile
  | other => other.toString.toList

/-- An operation whose failure is a message. -/
def attempt {α : Type} (action : IO α) : IO (Except Text α) := do
  match <- action.toBaseIO with
  | .ok value => pure (.ok value)
  | .error error => pure (.error (failureMessage error))

/-- All of a stream. -/
def readStream (stream : IO.FS.Stream) : IO Text := do
  let mut bytes := ByteArray.empty
  let mut more := true
  while more do
    let chunk <- stream.read 65536
    bytes := bytes ++ chunk
    more := chunk.size ≠ 0
  match String.fromUTF8? bytes with
  | some text => pure text.toList
  | none => throw (IO.userError "stream did not contain valid UTF-8")

/-- The files and streams of the system. -/
def systemSurroundings : Surroundings IO where
  readFile name := attempt do pure (<- IO.FS.readFile (String.ofList name)).toList
  writeFile name text := attempt (IO.FS.writeFile (String.ofList name) (String.ofList text))
  readInput := attempt do readStream (<- IO.getStdin)
  writeOutput text := do
    let stream <- IO.getStdout
    stream.putStr (String.ofList text)
    stream.flush
  writeError text := do (<- IO.getStderr).putStr (String.ofList text)

end LatexMarkdown.CommandLine

/-- Run the program. -/
def main (arguments : List String) : IO UInt32 := do
  let code <- LatexMarkdown.CommandLine.run LatexMarkdown.CommandLine.systemSurroundings
    (arguments.map String.toList)
  pure code.toUInt32
