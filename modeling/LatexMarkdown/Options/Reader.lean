import LatexMarkdown.Number.Decimal
import LatexMarkdown.Options.Basic
import LatexMarkdown.Text.Basic

/-!
# Options in text

Options are read from a JSON object with a field for each of them, or from a
JSON array with their values in order. Fields that are left out keep their
standard values; unknown and repeated fields are refused.
-/

namespace LatexMarkdown.Options

/-- A value that an option can take. -/
inductive Scalar where
  | flag (value : Bool)
  | count (value : Nat)
  deriving DecidableEq, Repr

/-- The options that were given so far. -/
structure Draft where
  preview : Option Bool
  verbatimLimit : Option Nat
  environmentLimit : Option Nat
  deriving DecidableEq, Repr

namespace Draft

/-- No option is given. -/
def empty : Draft :=
  ⟨none, none, none⟩

/-- The names of the options, in order. -/
def names : List Text :=
  ["preview", "verbatim_preview_chars", "environment_preview_chars"].map String.toList

/-- Give the option at a place in the order its value, unless it has one or the
value is of the wrong kind. -/
def give (draft : Draft) (place : Nat) (value : Scalar) : Option Draft :=
  match place, draft, value with
  | 0, ⟨none, _, _⟩, .flag value => some { draft with preview := some value }
  | 1, ⟨_, none, _⟩, .count value => some { draft with verbatimLimit := some value }
  | 2, ⟨_, _, none⟩, .count value => some { draft with environmentLimit := some value }
  | _, _, _ => none

/-- The options, with the standard value for each that was not given. -/
def complete (draft : Draft) : Options :=
  ⟨draft.preview.getD standard.preview, draft.verbatimLimit.getD standard.verbatimLimit,
    draft.environmentLimit.getD standard.environmentLimit⟩

end Draft

/-- Read a value and the text after it. Counts have neither sign nor leading
zeros. -/
def readScalar (text : Text) : Option (Scalar × Text) :=
  match Text.dropFront? "true".toList text, Text.dropFront? "false".toList text with
  | some rest, _ => some (.flag true, rest)
  | none, some rest => some (.flag false, rest)
  | none, none =>
    let digits := text.takeWhile Char.isDigit
    if digits.head? = some '0' && digits.length ≠ 1 then none
    else (Count.ofDigits? digits).map fun value =>
      (.count value, text.dropWhile Char.isDigit)

/-- Read a name up to its closing quote, and the text after that. The only
escapes that can occur in the name of an option are those by code point. -/
def readName : Text -> Option (Text × Text)
  | [] => none
  | '"' :: rest => some ([], rest)
  | '\\' :: 'u' :: first :: second :: third :: fourth :: rest => do
    let code := (((<- Text.hexValue? first) * 16 + (<- Text.hexValue? second)) * 16 +
      (<- Text.hexValue? third)) * 16 + (<- Text.hexValue? fourth)
    let (name, rest) <- readName rest
    some (Char.ofNat code :: name, rest)
  | c :: rest =>
    if c = '\\' || c.toNat < 32 then none
    else (readName rest).map fun (name, rest) => (c :: name, rest)

/-- Read a field, its name and its value, into a draft. -/
def readField (draft : Draft) (text : Text) : Option (Draft × Text) := do
  let inside <- Text.dropFront? ['"'] (Text.skipGap text)
  let (name, rest) <- readName inside
  let rest <- Text.dropFront? [':'] (Text.skipGap rest)
  let (value, rest) <- readScalar (Text.skipGap rest)
  let place <- Draft.names.idxOf? name
  some ((<- draft.give place value), Text.skipGap rest)

/-- Read the value of the option at a place in the order into a draft. -/
def readElement (place : Nat) (draft : Draft) (text : Text) : Option (Draft × Text) := do
  let (value, rest) <- readScalar (Text.skipGap text)
  some ((<- draft.give place value), Text.skipGap rest)

/-- Read items separated by commas up to a closing character. There are no more
options than `limit`, so there are no more items either. -/
def readItems (readItem : Nat -> Draft -> Text -> Option (Draft × Text)) (closing : Char) :
    (limit place : Nat) -> Draft -> Text -> Option (Draft × Text)
  | 0, _, _, _ => none
  | limit + 1, place, draft, text => do
    let (draft, rest) <- readItem place draft text
    match rest with
    | [] => none
    | c :: rest =>
      if c = closing then some (draft, rest)
      else if c = ',' then readItems readItem closing limit (place + 1) draft rest
      else none

/-- Read an object or an array of options, and the text after it. -/
def readDraft (text : Text) : Option (Draft × Text) :=
  match text with
  | '{' :: inside =>
    match Text.dropFront? ['}'] (Text.skipGap inside) with
    | some rest => some (.empty, rest)
    | none => readItems (fun _ => readField) '}' Draft.names.length 0 .empty inside
  | '[' :: inside =>
    match Text.dropFront? [']'] (Text.skipGap inside) with
    | some rest => some (.empty, rest)
    | none => readItems readElement ']' Draft.names.length 0 .empty inside
  | _ => none

/-- Read options from a whole text and check their limits. -/
def read (text : Text) : Except OptionsError Options :=
  match readDraft (Text.skipGap text) with
  | none => .error .malformed
  | some (draft, rest) =>
    if (Text.skipGap rest).isEmpty then do
      draft.complete.validate
      .ok draft.complete
    else .error .malformed

end LatexMarkdown.Options
