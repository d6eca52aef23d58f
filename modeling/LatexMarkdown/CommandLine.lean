import LatexMarkdown.Document.Convert
import LatexMarkdown.Json
import LatexMarkdown.Options.Reader

/-!
# The command line

A run reads options and a document, converts it, and writes the output or a
report on everything that was found. The files and streams that it uses are
given from outside, so that a run can be followed without any.
-/

namespace LatexMarkdown.CommandLine

/-- What a run is asked to do. -/
structure Request where
  source : Option Text
  target : Option Text
  optionsFile : Option Text
  preview : Bool
  diagnostics : Bool
  json : Bool
  colorless : Bool
  version : Bool
  deriving DecidableEq, Repr

namespace Request

/-- Nothing is asked for yet. -/
def empty : Request :=
  ⟨none, none, none, false, false, false, false, false⟩

/-- Name a file to write to, once. -/
def withTarget (request : Request) (target : Text) : Option Request :=
  if request.target.isSome then none else some { request with target := some target }

/-- Name a file with options, once. -/
def withOptionsFile (request : Request) (file : Text) : Option Request :=
  if request.optionsFile.isSome then none else some { request with optionsFile := some file }

/-- Name a file to read, once. -/
def withSource (request : Request) (source : Text) : Option Request :=
  if request.source.isSome then none else some { request with source := some source }

/-- Set a flag that has a one-letter name. -/
def withFlag (request : Request) (flag : Char) : Option Request :=
  if flag = 'p' && !request.preview then some { request with preview := true }
  else if flag = 'd' && !request.diagnostics then some { request with diagnostics := true }
  else if flag = 'V' then some { request with version := true }
  else none

/-- Set a flag by its name. -/
def withNamedFlag (request : Request) (name : Text) : Option Request :=
  if name = "preview".toList then request.withFlag 'p'
  else if name = "diagnostics".toList then request.withFlag 'd'
  else if name = "version".toList then request.withFlag 'V'
  else if name = "json".toList && !request.json then some { request with json := true }
  else if name = "no-color".toList && !request.colorless then
    some { request with colorless := true }
  else none

/-- Give a named option its value. -/
def withValue (request : Request) (name value : Text) : Option Request :=
  if name = "output".toList then request.withTarget value
  else if name = "options".toList then request.withOptionsFile value
  else none

/-- Whether a name is that of an option with a value. -/
def takesValue (name : Text) : Bool :=
  name = "output".toList || name = "options".toList

end Request

/-- What a group of one-letter names asks for: a request, and whether the value
of the last name is still to come. -/
def readLetters : Request -> Text -> Option (Request × Bool)
  | request, [] => some (request, false)
  | request, 'o' :: [] => some (request, true)
  | request, 'o' :: '=' :: value => (request.withTarget value).map fun request => (request, false)
  | request, 'o' :: value => (request.withTarget value).map fun request => (request, false)
  | request, flag :: others => do readLetters (<- request.withFlag flag) others

/-- Read the arguments of a run. `awaiting` names the option whose value comes
next; after `closed` all arguments are files. The version is shown at once,
whatever follows. -/
def readArguments : Request -> (awaiting : Option Text) -> (closed : Bool) -> List Text ->
    Option Request
  | request, none, _, [] => some request
  | _, some _, _, [] => none
  | request, some name, closed, value :: others =>
    if value.head? = some '-' && value ≠ ['-'] then none
    else do readArguments (<- request.withValue name value) none closed others
  | request, none, true, argument :: others => do
    readArguments (<- request.withSource argument) none true others
  | request, none, false, argument :: others =>
    if request.version then some request
    else match argument with
      | '-' :: '-' :: [] => readArguments request none true others
      | '-' :: '-' :: named =>
        match Text.splitFirst? ['='] named with
        | some (name, value) => do
          readArguments (<- request.withValue name value) none false others
        | none =>
          if Request.takesValue named then readArguments request (some named) false others
          else do readArguments (<- request.withNamedFlag named) none false others
      | '-' :: c :: letters => do
        let (request, awaits) <- readLetters request (c :: letters)
        readArguments request (if awaits then some "output".toList else none) false others
      | _ => do readArguments (<- request.withSource argument) none false others

/-- Why a run fails. -/
inductive Failure where
  | invalidOptions (message : Text)
  | inputOutput (message : Text)
  | internal (message : Text)
  deriving DecidableEq, Repr

namespace Failure

/-- The failure in words. -/
def describe : Failure -> Text
  | invalidOptions message => "Invalid options: ".toList ++ message
  | inputOutput message => "IO error: ".toList ++ message
  | internal message => "Internal error: ".toList ++ message

end Failure

/-- What is known about a file that is not there. -/
def missingFile : Text :=
  "No such file or directory (os error 2)".toList

/-- The files and streams of a run. Reading and writing of files may fail with a
message. -/
structure Surroundings (m : Type -> Type) where
  readFile : Text -> m (Except Text Text)
  writeFile : Text -> Text -> m (Except Text Unit)
  readInput : m (Except Text Text)
  writeOutput : Text -> m Unit
  writeError : Text -> m Unit

/-- The metadata of a document in a report. -/
def metadataJson (metadata : Metadata) : Json :=
  .object [("title".toList, .ofOption metadata.title), ("author".toList, .ofOption metadata.author),
    ("date".toList, .ofOption metadata.date)]

/-- A warning in a report. -/
def warningJson (warning : Warning) : Json :=
  .object [("kind".toList, .string warning.kind.identifier),
    ("message".toList, .string warning.message), ("location".toList, .ofOption warning.location)]

/-- The report on a conversion. -/
def resultJson (result : Document.Result) : Json :=
  .object [("output".toList, .string result.output),
    ("warnings".toList, .array (result.warnings.map warningJson)),
    ("metadata".toList, metadataJson result.metadata),
    ("labels".toList, .object (result.labels.map fun (key, value) => (key, .string value))),
    ("citations".toList, .object (result.citations.map fun (key, number) => (key, .number number)))]

/-- The lines that report the warnings of a conversion, and how many there are. -/
def diagnosticLines (warnings : List Warning) : Text :=
  if warnings.isEmpty then []
  else warnings.flatMap (fun warning => warning.line ++ ['\n']) ++
    Text.ofNat warnings.length ++ " warning(s)\n".toList

/-- The options of a run; a preview that is asked for by itself wins. -/
def chooseOptions (request : Request) (file : Option (Except Text Text)) :
    Except Failure Options := do
  let options <- match file with
    | none => .ok Options.standard
    | some (.error message) => .error (.inputOutput message)
    | some (.ok text) =>
      match Options.read text with
      | .ok options => .ok options
      | .error reason => .error (.invalidOptions reason.message)
  .ok (if request.preview then { options with preview := true } else options)

/-- What is written of a conversion. -/
def contentOf (request : Request) (result : Document.Result) : Text :=
  if request.json then (resultJson result).pretty else result.output

/-- Write the content of a conversion to where it was asked for. On the output
stream the last line is always complete. -/
def deliver {m : Type -> Type} [Monad m] (surroundings : Surroundings m) (request : Request)
    (content : Text) : m (Except Failure Unit) := do
  match request.target with
  | some target =>
    match <- surroundings.writeFile target content with
    | .ok () => pure (.ok ())
    | .error message => pure (.error (.inputOutput message))
  | none =>
    surroundings.writeOutput (if content.getLast? = some '\n' then content else content ++ ['\n'])
    pure (.ok ())

/-- Read the options and the document, convert it, and report and write the
result. -/
def perform {m : Type -> Type} [Monad m] (surroundings : Surroundings m) (request : Request) :
    m (Except Failure Unit) := do
  let file <- match request.optionsFile with
    | some path => do pure (some (<- surroundings.readFile path))
    | none => pure none
  match chooseOptions request file with
  | .error failure => pure (.error failure)
  | .ok options =>
    let source <- match request.source with
      | some path => surroundings.readFile path
      | none => surroundings.readInput
    match source with
    | .error message => pure (.error (.inputOutput message))
    | .ok source =>
      let result := Document.convert options source
      if request.diagnostics then surroundings.writeError (diagnosticLines result.warnings)
      deliver surroundings request (contentOf request result)

/-- The name of the program. -/
def programName : Text :=
  "texmark".toList

/-- The version of the program. -/
def versionText : Text :=
  "0.1.0".toList

/-- A run with its arguments; the result is the exit code. -/
def run {m : Type -> Type} [Monad m] (surroundings : Surroundings m) (arguments : List Text) :
    m Nat := do
  match readArguments .empty none false arguments with
  | none =>
    surroundings.writeError ("error: invalid arguments\n".toList)
    pure 2
  | some request =>
    if request.version then
      surroundings.writeOutput (programName ++ ' ' :: versionText ++ ['\n'])
      pure 0
    else
      match <- perform surroundings request with
      | .ok () => pure 0
      | .error failure =>
        surroundings.writeError (programName ++ ": ".toList ++ failure.describe ++ ['\n'])
        pure 1

end LatexMarkdown.CommandLine
