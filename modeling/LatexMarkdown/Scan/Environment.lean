import LatexMarkdown.Scan.Command

/-!
# Environments

The environment opened by `\begin` with a name closes at the first `\end` with
that name before which openings and closings of the name balance. Inside, the
markers count whether escaped or not; the opening itself must not be escaped.
-/

namespace LatexMarkdown.Scan

/-- The marker that opens an environment. -/
def beginMarker (name : Text) : Text :=
  "\\begin".toList ++ '{' :: name ++ ['}']

/-- The marker that closes an environment. -/
def endMarker (name : Text) : Text :=
  "\\end".toList ++ '{' :: name ++ ['}']

/-- Whether `pattern` starts at one of the next `width` characters. -/
def startsWithin (pattern : Text) : (width : Nat) -> Text -> Bool
  | width + 1, c :: rest =>
    Text.startsWith pattern (c :: rest) || startsWithin pattern width rest
  | _, _ => false

/-- Split a text at the closing marker that balances, `depth` openings deeper
than its own level: the text before it and the text after it. Markers are passed
over as a whole, and the next `covered` characters belong to one; an opening marker
into which the next closing one reaches does not count. -/
def splitAtClosing (opening closing : Text) : (depth covered : Nat) -> Text ->
    Option (Text × Text)
  | _, _, [] => none
  | depth, covered + 1, c :: rest =>
    keepFirst c (splitAtClosing opening closing depth covered rest)
  | depth, 0, c :: rest =>
    match Text.dropFront? closing (c :: rest) with
    | some after =>
      match depth with
      | 0 => some ([], after)
      | outer + 1 => keepFirst c (splitAtClosing opening closing outer (closing.length - 1) rest)
    | none =>
      if Text.startsWith opening (c :: rest) &&
          !startsWithin closing opening.length (c :: rest) then
        keepFirst c (splitAtClosing opening closing (depth + 1) (opening.length - 1) rest)
      else keepFirst c (splitAtClosing opening closing depth 0 rest)

/-- The body of the environment `name` whose opening has just been read, and the
text after its closing marker. -/
def readBody (name : Text) (text : Text) : Option (Text × Text) :=
  splitAtClosing (beginMarker name) (endMarker name) 0 0 text

/-- Where the closing marker that balances lies, read from an offset on: its
first byte and the byte after it. -/
def findClosingAt (name text : Text) (offset : Nat) : Option (Nat × Nat) := do
  let suffix <- Text.suffixAt? text offset
  let (body, _) <- readBody name suffix
  let start := offset + Text.utf8Length body
  some (start, start + Text.utf8Length (endMarker name))

/-- A complete environment: the bytes it covers, the arguments of its opening
marker, and what stands between them and the closing marker. -/
structure Environment where
  start : Nat
  stop : Nat
  arguments : Arguments
  body : Text
  deriving DecidableEq, Repr

/-- The environment that the text starts with, and the text after it. -/
def readEnvironment (name : Text) (maxOptions required : Nat) (cursor : Cursor)
    (text : Text) : Option (Environment × Text) :=
  if cursor.escaped then none
  else do
    let after <- Text.dropFront? (beginMarker name) text
    let (arguments, inside) <- readArguments ⟨false, maxOptions, required⟩ after
    let (body, rest) <- readBody name inside
    some (⟨cursor.offset, cursor.offset + (Text.utf8Length text - Text.utf8Length rest),
      arguments, body⟩, rest)

/-- The first complete environment of a name. An opening marker that opens none is
passed over as a whole, and the next `covered` characters belong to one. -/
def findEnvironmentFrom (name : Text) (maxOptions required : Nat) :
    Cursor -> (covered : Nat) -> Text -> Option Environment
  | _, _, [] => none
  | cursor, covered + 1, c :: rest =>
    findEnvironmentFrom name maxOptions required (cursor.advance c) covered rest
  | cursor, 0, c :: rest =>
    match readEnvironment name maxOptions required cursor (c :: rest) with
    | some (environment, _) => some environment
    | none =>
      findEnvironmentFrom name maxOptions required (cursor.advance c)
        (if Text.startsWith (beginMarker name) (c :: rest) then (beginMarker name).length - 1
          else 0) rest

/-- The first complete environment of a name at or after an offset. -/
def findEnvironmentAt (name : Text) (maxOptions required : Nat) (text : Text)
    (offset : Nat) : Option Environment := do
  let suffix <- Text.suffixAt? text offset
  findEnvironmentFrom name maxOptions required ⟨offset, isEscapedAt false text offset⟩ 0 suffix

/-- The rule for the environments of one name. An opening marker that opens none stays as
it is, and the search goes on after it. -/
def environmentRule {σ : Type} (name : Text) (maxOptions required : Nat)
    (answer : Answer σ Environment) : Rule σ :=
  fun state cursor text =>
    match readEnvironment name maxOptions required cursor text with
    | none =>
      (state, (Text.dropFront? (beginMarker name) text).map fun after =>
        Edit.byAnswer text after none)
    | some (environment, rest) =>
      let (state, replacement) := answer state environment
      (state, some (Edit.byAnswer text rest replacement))

/-- Edit every outermost environment of a name. One without an answer stays
as it is, and what is inside it is not asked about. -/
def editEnvironment {σ : Type} (name : Text) (maxOptions required : Nat)
    (answer : Answer σ Environment) (state : σ) (text : Text) : σ × Text :=
  edit (environmentRule name maxOptions required answer) state text

/-- Edit every outermost environment of a name by an answer without state. -/
def replaceEnvironment (name : Text) (maxOptions required : Nat)
    (answer : Environment -> Option Text) (text : Text) : Text :=
  (editEnvironment name maxOptions required
    (fun (_ : Unit) environment => ((), answer environment)) () text).2

end LatexMarkdown.Scan
