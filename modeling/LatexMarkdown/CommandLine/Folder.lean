import LatexMarkdown.CommandLine

/-!
# Runs in a folder of texts

A run can be followed in a folder that holds nothing but named texts. Its
streams are texts too.
-/

namespace LatexMarkdown.CommandLine

/-- A folder with its files, what can still be read from the input stream, and
what was written to the other streams. -/
structure Folder where
  files : KeyedList Text
  input : Text
  output : Text
  errors : Text
  deriving DecidableEq, Repr

namespace Folder

/-- The surroundings of a run in a folder. Only the folder itself is there, so
that no file can be written to a folder inside it. -/
def surroundings : Surroundings (StateM Folder) where
  readFile name := do
    match KeyedList.find? (<- get).files name with
    | some text => pure (.ok text)
    | none => pure (.error missingFile)
  writeFile name text := do
    if name.isEmpty || name.any (· = '/') then pure (.error missingFile)
    else
      modify fun folder => { folder with files := KeyedList.put folder.files name text }
      pure (.ok ())
  readInput := do
    let text := (<- get).input
    modify fun folder => { folder with input := [] }
    pure (.ok text)
  writeOutput text := modify fun folder => { folder with output := folder.output ++ text }
  writeError text := modify fun folder => { folder with errors := folder.errors ++ text }

/-- Run the program in a folder: its exit code, and the folder afterwards. -/
def run (folder : Folder) (arguments : List Text) : Nat × Folder :=
  (CommandLine.run surroundings arguments).run folder

end Folder

end LatexMarkdown.CommandLine
