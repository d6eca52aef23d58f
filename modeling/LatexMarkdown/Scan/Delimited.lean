import LatexMarkdown.Scan.Command

/-!
# Delimited spans

A span runs from an unescaped opening delimiter to the next unescaped closing
one. Any texts may be delimiters, and there are some for which a search has no
result; those of formulas start with a single byte, and always have one. Inline
math between single dollars has rules of its own: it is never empty and never
reaches over a blank line.
-/

namespace LatexMarkdown

/-- What keeps a scan from giving a result. -/
inductive Fault where
  /-- A slice ends inside a character or past the end of the text, or it ends before it starts. -/
  | slice
  /-- A counter at zero is counted down. -/
  | counter
  /-- An index does not move on. -/
  | stuck
  deriving DecidableEq, Repr

namespace Scan

/-! ## Delimiters of any kind -/

/-- The text before the next unescaped `pattern`, and the text after it. Behind a `pattern` that
is escaped the search goes on at the next byte, which may lie inside a character. -/
def findUnescaped (pattern : Text) : (escaped : Bool) -> Text -> Except Fault (Option (Text × Text))
  | escaped, [] => .ok (if pattern.isEmpty && !escaped then some ([], []) else none)
  | escaped, c :: rest =>
    match Text.dropFront? pattern (c :: rest) with
    | none => (findUnescaped pattern (escapesNext escaped c) rest).map (keepFirst c)
    | some after =>
      if !escaped then .ok (some ([], after))
      else if c.utf8Size = 1 then
        (findUnescaped pattern (escapesNext escaped c) rest).map (keepFirst c)
      else .error .slice

/-- Edit every span between two delimiters from a position on. -/
def editBetweenFrom {σ : Type} (opening closing : Text) (answer : Answer σ Text) (state : σ)
    (cursor : Cursor) (text : Text) : Except Fault (σ × Text) :=
  match findUnescaped opening cursor.escaped text with
  | .error fault => .error fault
  | .ok none => .ok (state, text)
  | .ok (some (before, inside)) =>
    let cursor := cursor.advanceOver (before ++ opening)
    match findUnescaped closing cursor.escaped inside with
    | .error fault => .error fault
    | .ok none => .ok (state, text)
    | .ok (some (body, rest)) =>
      if rest.length < text.length then
        let (state, replacement) := answer state body
        let written := before ++ replacement.getD (opening ++ (body ++ closing))
        (editBetweenFrom opening closing answer state (cursor.advanceOver (body ++ closing))
          rest).map fun (state, others) => (state, written ++ others)
      else .error .stuck
termination_by text.length

/-- Edit every span between two delimiters. A span without an answer stays as
it is, and the search goes on after it. -/
def editBetween {σ : Type} (opening closing : Text) (answer : Answer σ Text) (state : σ)
    (text : Text) : Except Fault (σ × Text) :=
  editBetweenFrom opening closing answer state .start text

/-- Edit every span between two delimiters by an answer without state. -/
def replaceBetween (opening closing : Text) (answer : Text -> Option Text) (text : Text) :
    Except Fault Text :=
  (editBetween opening closing (fun (_ : Unit) body => ((), answer body)) () text).map Prod.snd

/-! ## Delimiters that start with a single byte -/

/-- Whether a text starts with a character of a single byte. -/
def startsNarrow (text : Text) : Bool :=
  text.head?.any fun c => c.utf8Size = 1

/-- Two delimiters that start with a single byte each, so that a search for them gives a result. -/
structure Delimiters where
  opening : Text
  closing : Text
  opens : startsNarrow opening = true
  closes : startsNarrow closing = true

/-- The text before the next unescaped `pattern`, and the text after it, found character by
character. -/
def splitUnescaped? (pattern : Text) : (escaped : Bool) -> Text -> Option (Text × Text)
  | escaped, [] => if pattern.isEmpty && !escaped then some ([], []) else none
  | escaped, c :: rest =>
    match if escaped then none else Text.dropFront? pattern (c :: rest) with
    | some after => some ([], after)
    | none => keepFirst c (splitUnescaped? pattern (escapesNext escaped c) rest)

/-- The rule for spans between two delimiters. -/
def delimitedRule {σ : Type} (opening closing : Text) (answer : Answer σ Text) : Rule σ :=
  fun state cursor text =>
    match if cursor.escaped then none else Text.dropFront? opening text with
    | none => (state, none)
    | some inside =>
      let escaped := (cursor.advanceOver opening).escaped
      match splitUnescaped? closing escaped inside with
      | none => (state, none)
      | some (body, rest) =>
        let (state, replacement) := answer state body
        (state, some (Edit.byAnswer text rest replacement))

/-- Edit every span between two delimiters. -/
def editDelimited {σ : Type} (delimiters : Delimiters) (answer : Answer σ Text) (state : σ)
    (text : Text) : σ × Text :=
  edit (delimitedRule delimiters.opening delimiters.closing answer) state text

/-! ## Dollars -/

/-- The inside of inline math whose dollar has just been read, and the text after
the closing dollar. -/
def readDollars : (escaped : Bool) -> Text -> Option (Text × Text)
  | _, [] => none
  | true, c :: rest => keepFirst c (readDollars false rest)
  | false, c :: rest =>
    if c = '\\' then keepFirst c (readDollars true rest)
    else if c = '$' then some ([], rest)
    else if c = '\n' && Text.startsBlankLine rest then none
    else keepFirst c (readDollars false rest)

/-- The rule for inline math between single dollars. A dollar that opens nothing,
or only an empty span, stays by itself. -/
def dollarsRule {σ : Type} (answer : σ -> Text -> σ × Text) : Rule σ :=
  fun state cursor text =>
    match text with
    | [] => (state, none)
    | c :: inside =>
      if cursor.escaped || c ≠ '$' then (state, none)
      else match readDollars false inside with
        | none => (state, none)
        | some ([], _) => (state, none)
        | some (body, rest) =>
          let (state, replacement) := answer state body
          (state, some (Edit.upTo text rest replacement))

/-- Edit all inline math between single dollars. -/
def editDollars {σ : Type} (answer : σ -> Text -> σ × Text) (state : σ) (text : Text) :
    σ × Text :=
  edit (dollarsRule answer) state text

/-- Edit all inline math between single dollars by an answer without state. -/
def replaceDollars (answer : Text -> Text) (text : Text) : Text :=
  (editDollars (fun (_ : Unit) body => ((), answer body)) () text).2

end Scan

end LatexMarkdown
