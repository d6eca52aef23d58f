import LatexMarkdown.Math.Span
import LatexMarkdown.Numbering.Reference
import LatexMarkdown.Options.Basic
import LatexMarkdown.Table.Nesting

/-!
# Moving tables into the store

Fragments that were stored before go back into a table, so that what is stored
for the table is final. An array outside formulas is a formula on display; one
that fills a formula takes the delimiters with it.
-/

namespace LatexMarkdown.Table

/-- What the conversion of tables depends on. -/
structure TableContext where
  preview : Bool
  colors : ColorTable
  labels : LabelRegistry
  citations : CitationRegistry
  deriving DecidableEq, Repr

/-- What a table writes to: the warnings and the store. -/
structure TableSink where
  warnings : List Warning
  store : FragmentStore
  deriving DecidableEq, Repr

/-- What a preview shows of a table. -/
def tablePreview : Text :=
  "[tabla]".toList

/-- What a preview shows of an array. -/
def arrayPreview : Text :=
  "[matriz]".toList

/-- Move one table into the store. -/
def protectOne (context : TableContext) (family : Family) (sink : TableSink)
    (environment : Scan.Environment) : TableSink × Option Text :=
  if context.preview then
    let (store, token) := sink.store.push tablePreview
    ({ sink with store }, some token)
  else
    let (warnings, body) := Numbering.resolveReferences context.labels context.citations
      sink.warnings environment.body
    let table := render context.colors (family.specification environment)
      (sink.store.restore body)
    let (store, token) := sink.store.push table
    (⟨warnings, store⟩, some token)

/-- Move all tables of a document into the store. -/
def protect (context : TableContext) (sink : TableSink) (text : Text) : TableSink × Text :=
  families.foldl (fun (sink, text) family =>
    Scan.editEnvironment family.name.toList family.maxOptions family.required
      (protectOne context family) sink text) (sink, text)

/-- Whether one table comes to an end when it is moved into the store. -/
def endsOne (context : TableContext) (family : Family) (sink : TableSink)
    (environment : Scan.Environment) : Bool :=
  let (_, body) := Numbering.resolveReferences context.labels context.citations sink.warnings
    environment.body
  context.preview || comesToEnd context.colors (family.specification environment)
    (sink.store.restore body)

/-- Whether all tables of a document come to an end. -/
def allEnd (context : TableContext) (sink : TableSink) (text : Text) : Bool :=
  let ((_, ends), _) := families.foldl (fun (state, text) family =>
    Scan.editEnvironment family.name.toList family.maxOptions family.required
      (fun (sink, ends) environment =>
        let ends := ends && endsOne context family sink environment
        let (sink, token) := protectOne context family sink environment
        ((sink, ends), token)) state text) ((sink, true), text)
  ends

/-- A row of an array without rules and colours. -/
def cleanArrayRow (row : Text) : Text :=
  let row := stripRules row
  let row := Scan.replaceCommand "rowcolor".toList ⟨true, 1, 1⟩ (fun _ => some []) row
  Scan.replaceCommand "cellcolor".toList ⟨true, 1, 1⟩ (fun _ => some []) row

/-- An array as a formula on display. -/
def renderArray (colors : ColorTable) (specification body : Text) : Text :=
  let rows := ((splitRows body).map cleanArrayRow).filter fun row => !Text.isBlankText row
  let rows := rows.map fun row =>
    Text.joinWith " & ".toList ((splitCells row).map Text.trim)
  let array := "array".toList
  Math.displayed (Scan.beginMarker array ++ '{' :: Text.trim specification ++ '}' :: '\n' ::
    Math.clean colors (Text.joinWith " \\\\\n".toList rows) ++ '\n' :: Scan.endMarker array)

/-- Whether the end of a text, given in reverse, is escaped. -/
def endsEscaped (before : Text) : Bool :=
  (before.takeWhile (· = '\\')).length % 2 = 1

/-- The delimiters of formulas on display that may wrap an array. -/
def wrappers : List (Text × Text) :=
  [("$$".toList, "$$".toList), ("\\[".toList, "\\]".toList)]

/-- How many characters before an array belong to the formula that it fills, and
the text after that formula. What stands before the array is given in reverse. -/
def readWrapper (before after : Text) : Option (Nat × Text) :=
  let trimmed := before.dropWhile Text.isBlank
  wrappers.findSome? fun (opening, closing) =>
    match Text.dropFront? opening.reverse trimmed,
        Text.dropFront? closing (Text.trimStart after) with
    | some outside, some rest =>
      if endsEscaped outside || Math.isInside outside.reverse then none
      else some (before.length - outside.length, rest)
    | _, _ => none

/-- Where an array stands that is a formula of its own: how many characters
before it belong to that formula, and the text after it. An array inside a
larger formula has no place of its own. What stands before the array, and what
of it is still to be written, are given in reverse. -/
def arrayPlace? (before pending after : Text) : Option (Nat × Text) :=
  match readWrapper before after with
  | some (width, outside) => if width ≤ pending.length then some (width, outside) else none
  | none => if Math.isInside before.reverse then none else some (0, after)

/-- Write an answer in the place of every array that is a formula of its own,
from a position on. `before` is the document before the position, `pending` the
part of it that is not written yet, both in reverse, and the next `covered`
characters have been dealt with: they are dropped if they were answered and
pending if they were not. -/
def editArraysFrom {σ : Type} (answer : σ -> Scan.Environment -> σ × Text) :
    σ -> Scan.Cursor -> (before pending : Text) -> (covered : Nat) -> (answered : Bool) ->
      Text -> σ × Text
  | state, _, _, pending, _, _, [] => (state, pending.reverse)
  | state, cursor, before, pending, covered + 1, answered, c :: rest =>
    editArraysFrom answer state (cursor.advance c) (c :: before)
      (if answered then pending else c :: pending) covered answered rest
  | state, cursor, before, pending, 0, _, c :: rest =>
    match Scan.readEnvironment "array".toList 1 1 cursor (c :: rest) with
    | none =>
      editArraysFrom answer state (cursor.advance c) (c :: before) (c :: pending) 0 false rest
    | some (environment, after) =>
      match arrayPlace? before pending after with
      | none =>
        editArraysFrom answer state (cursor.advance c) (c :: before) (c :: pending)
          (rest.length - after.length) false rest
      | some (width, outside) =>
        let (state, replacement) := answer state environment
        let (state, written) := editArraysFrom answer state (cursor.advance c)
          (c :: before) [] (rest.length - outside.length) true rest
        (state, (pending.drop width).reverse ++ replacement ++ written)

/-- Write an answer in the place of every array that is a formula of its own. -/
def editArrays {σ : Type} (answer : σ -> Scan.Environment -> σ × Text) (state : σ)
    (text : Text) : σ × Text :=
  editArraysFrom answer state .start [] [] 0 false text

/-- What an array becomes. -/
def arrayFragment (preview : Bool) (colors : ColorTable) (environment : Scan.Environment) :
    Text :=
  if preview then arrayPreview
  else renderArray colors (environment.arguments.argument 0) environment.body

/-- Move the arrays that are no part of a larger formula into the store. -/
def protectArrays (preview : Bool) (colors : ColorTable) (store : FragmentStore) (text : Text) :
    FragmentStore × Text :=
  editArrays (fun store environment => store.push (arrayFragment preview colors environment))
    store text

end LatexMarkdown.Table
