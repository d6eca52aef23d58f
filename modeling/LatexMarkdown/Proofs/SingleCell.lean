import LatexMarkdown.Proofs.EscapedPasses
import LatexMarkdown.Proofs.TableDepth

/-!
# Tables of a single cell

A body that no separator divides and that spells no command of the grid is a
table of one row with one cell. What stands in the output is the finished
content of the cell, and finishing leaves a text alone that has neither commands
nor punctuation.
-/

namespace LatexMarkdown

open Scan

namespace Text

/-- A text without blanks at its ends is not trimmed. -/
theorem trim_of_visible {text : Text} (start : ∀ c, text.head? = some c → isBlank c = false)
    (ending : ∀ c, text.getLast? = some c → isBlank c = false) : trim text = text := by
  rw [trim, trimStart_of_head? start]
  exact dropTrailing_of_getLast? ending

/-- A text between two characters that are not blank is not trimmed. -/
theorem trim_of_ends {text : Text} {first last : Char} (starts : text.head? = some first)
    (ends : text.getLast? = some last) (visible : isBlank first = false ∧ isBlank last = false) :
    trim text = text := by
  refine trim_of_visible (fun c head => ?_) (fun c tail => ?_)
  · rw [← Option.some.inj (starts.symm.trans head)]
    exact visible.1
  · rw [← Option.some.inj (ends.symm.trans tail)]
    exact visible.2

end Text

namespace Table

/-- The commands that are taken out of the rows and the cells of a table, with
the marks around its headers. -/
def gridCommands : List Text :=
  ["endfirsthead", "endhead", "endfoot", "endlastfoot", "hline", "toprule", "midrule",
    "bottomrule", "hdashline", "cline", "cmidrule", "addlinespace", "rowcolor", "multicolumn",
    "multirow", "cellcolor"].map fun name => '\\' :: name.toList

/-- A text that spells no command of the grid. -/
def GridFree (text : Text) : Prop :=
  ∀ command ∈ gridCommands, ¬ command <:+: text

instance (text : Text) : Decidable (GridFree text) :=
  List.decidableBAll (fun command => ¬ command <:+: text) gridCommands

/-- A text that is the content of a single cell. -/
structure IsSingleCell (text : Text) : Prop where
  row : splitRows text = [text]
  cell : splitCells text = [text]
  visible : Text.isBlankText text = false
  free : GridFree text

/-- The tag that opens a table. -/
def tableTag : Text :=
  "<table class=\"latex-table\">".toList

/-- A row of one cell, aligned to the left. -/
def singleRow (content : Text) : Text :=
  "<tr>".toList ++ ("<td style=\"text-align: left;\">".toList ++ content ++ "</td>".toList) ++
    "</tr>".toList

/-- A table of one cell, aligned to the left. -/
def singleCell (content : Text) : Text :=
  '\n' :: (tableTag ++ '\n' :: (singleRow content ++ '\n' :: ("</table>".toList ++ ['\n'])))

/-- A cell of one column and one row without a colour of its own. -/
def Cell.unit (alignment : Option Alignment) (content : Text) : Cell :=
  ⟨content, 1, 1, alignment, none⟩

/-- A row of such cells, of which only the first has a column of its own. -/
def unitRow (first : Text) (others : List Text) : Row :=
  ⟨Cell.unit (some .left) first :: others.map (Cell.unit none), none⟩

/-- The tag that opens a row. -/
def rowTag : Text :=
  "<tr>".toList

/-- The tag that opens a cell aligned to the left. -/
def leftTag : Text :=
  "<td style=\"text-align: left;\">".toList

/-- The tag that opens a cell without an alignment. -/
def cellTag : Text :=
  "<td>".toList

/-- The tags that close a cell, a row and a table. -/
def cellEnd : Text :=
  "</td>".toList

def rowEnd : Text :=
  "</tr>".toList

def tableEnd : Text :=
  "</table>".toList

/-- A row of such cells in the output. -/
def writtenUnits (first : Text) (others : List Text) : Text :=
  rowTag ++ (leftTag ++ first ++ cellEnd) ++
    others.flatMap (fun content => cellTag ++ content ++ cellEnd) ++ rowEnd

/-- A table of one row. -/
def rowTable (row : Text) : Text :=
  '\n' :: (tableTag ++ '\n' :: (row ++ '\n' :: (tableEnd ++ ['\n'])))

theorem singleRow_eq (content : Text) : singleRow content = writtenUnits content [] := by
  rw [writtenUnits, List.flatMap_nil, List.append_nil]
  rfl

theorem singleCell_eq (content : Text) : singleCell content = rowTable (writtenUnits content []) := by
  rw [← singleRow_eq]
  rfl

namespace GridFree

variable {text : Text}

theorem of_infix {part : Text} (free : GridFree text) (inside : part <:+: text) : GridFree part :=
  fun command listed occurs => free command listed (occurs.trans inside)

theorem of_plain (plain : '\\' ∉ text) : GridFree text := by
  have starts : ∀ command ∈ gridCommands, '\\' ∈ command := by decide
  exact fun command listed occurs => plain (occurs.subset (starts command listed))

/-- No name of a command of the grid follows a backslash. -/
theorem dropFront?_eq_none {rest name : Text} (free : GridFree ('\\' :: rest))
    (listed : '\\' :: name ∈ gridCommands) : Text.dropFront? name rest = none := by
  refine Text.dropFront?_eq_none_iff.mpr fun start => free _ listed ?_
  exact (List.cons_prefix_cons.mpr ⟨rfl, start⟩).isInfix

/-- None of some names of commands of the grid follows a backslash. -/
theorem afterOneOf?_eq_none {rest : Text} (free : GridFree ('\\' :: rest)) {names : List Text}
    (listed : ∀ name ∈ names, '\\' :: name ∈ gridCommands) : afterOneOf? names rest = none :=
  List.findSome?_eq_none_iff.mpr fun name member => free.dropFront?_eq_none (listed name member)

theorem afterHeaderMark?_eq (free : GridFree text) : afterHeaderMark? text = none := by
  rw [afterHeaderMark?, Option.bind_eq_bind, Option.bind_eq_none_iff]
  intro rest opened
  obtain rfl := Text.dropFront?_eq_some_iff.mp opened
  rw [List.singleton_append] at free
  rw [free.afterOneOf?_eq_none (by decide)]
  rfl

theorem dropRepeatedHeaders_eq (free : GridFree text) : dropRepeatedHeaders text = text := by
  have unmarked : beforeHeaderMark? text = none := by
    induction text with
    | nil => rfl
    | cons c rest inductionHypothesis =>
      rw [beforeHeaderMark?, free.afterHeaderMark?_eq,
        inductionHypothesis (free.of_infix (List.suffix_cons c rest).isInfix)]
      rfl
  rw [dropRepeatedHeaders, unmarked]

theorem afterRule?_eq (free : GridFree text) : afterRule? text = none := by
  rw [afterRule?, Option.bind_eq_bind, Option.bind_eq_none_iff]
  intro rest opened
  obtain rfl := Text.dropFront?_eq_some_iff.mp opened
  rw [List.singleton_append] at free
  rw [free.afterOneOf?_eq_none (by decide), free.dropFront?_eq_none (by decide),
    free.dropFront?_eq_none (by decide), free.dropFront?_eq_none (by decide)]
  rfl

theorem stripRules_eq (free : GridFree text) : stripRules text = text :=
  editAhead_of_silent fun suffix within _ => by
    simp only [(free.of_infix within.isInfix).afterRule?_eq, Option.map_none]

theorem takeRowColor_eq (free : GridFree text) (colors : ColorTable) :
    takeRowColor colors text = (none, text) :=
  editCommand_of_absent (free _ (by decide)) _ _ _

theorem read_eq (free : GridFree text) (colors : ColorTable) :
    Cell.read colors text = Cell.unit none (Text.trim text) := by
  have trimmed := free.of_infix (Text.trim_infix text)
  have columns : ¬ ('\\' :: "multicolumn".toList) <:+: Text.trim text := trimmed _ (by decide)
  have rows : ¬ ('\\' :: "multirow".toList) <:+: Text.trim text := trimmed _ (by decide)
  have color : ¬ ('\\' :: "cellcolor".toList) <:+: Text.trim text := trimmed _ (by decide)
  simp only [Cell.read, editCommand_of_absent columns, editCommand_of_absent rows,
    editCommand_of_absent color, Text.trim_trim]
  rfl

end GridFree

/-- A text without backslashes is one row, wherever it stands. -/
theorem rowsFrom_of_plain {text : Text} (plain : '\\' ∉ text) (depth : Depth) (escaped : Bool) :
    rowsFrom depth escaped 0 text = [text] := by
  induction text generalizing depth escaped with
  | nil => cases escaped <;> rfl
  | cons c rest inductionHypothesis =>
    rw [List.mem_cons, not_or] at plain
    have later := inductionHypothesis plain.2
    cases escaped with
    | true =>
      rw [rowsFrom, later]
      rfl
    | false =>
      rw [rowsFrom, if_neg (Ne.symm plain.1), later]
      rfl

/-- The grid of a single cell. -/
theorem readGrid_of_single {text : Text} (single : IsSingleCell text) (colors : ColorTable) :
    readGrid colors (columns "l".toList) text = [unitRow (Text.trim text) []] := by
  have rows : readRows colors text = [⟨[Cell.unit none (Text.trim text)], none⟩] := by
    simp [readRows, single.free.dropRepeatedHeaders_eq, single.row, single.free.stripRules_eq,
      single.free.takeRowColor_eq, single.visible, single.cell, single.free.read_eq]
  rw [readGrid, rows]
  rfl

/-- Where every item has an answer, the answers are listed. -/
theorem mapM_of_answers {α β : Type} {write : α → Option β} {shows : α → β} {items : List α}
    (answers : ∀ item ∈ items, write item = some (shows item)) :
    items.mapM write = some (items.map shows) := by
  induction items with
  | nil => rfl
  | cons item others inductionHypothesis =>
    rw [List.forall_mem_cons] at answers
    rw [List.mapM_cons, answers.1, inductionHypothesis answers.2]
    rfl

theorem html?_eq (content? : Text → Option Text) (rows : List Row) :
    html? content? rows = (rows.mapM (Row.html? content?)).map fun rows =>
      '\n' :: (tableTag ++ ['\n']) ++ rows.flatten ++ (tableEnd ++ ['\n']) := by
  have tags : "\n<table class=\"latex-table\">\n".toList = '\n' :: (tableTag ++ ['\n']) ∧
      "</table>\n".toList = tableEnd ++ ['\n'] := by decide
  rw [← tags.1, ← tags.2]
  rfl

theorem Row.html?_eq (content? : Text → Option Text) (row : Row) :
    row.html? content? = (row.cells.mapM (Cell.html? content?)).map fun cells =>
      row.openTag ++ cells.flatten ++ (rowEnd ++ ['\n']) := by
  have tag : "</tr>\n".toList = rowEnd ++ ['\n'] := by decide
  rw [← tag]
  rfl

/-- The output of a row of cells without spans and colours. -/
theorem html?_unitRow {content? : Text → Option Text} {shows : Text → Text} {first : Text}
    {others : List Text}
    (answers : ∀ content ∈ first :: others, content? content = some (shows content)) :
    html? content? [unitRow first others] =
      some (rowTable (writtenUnits (shows first) (others.map shows))) := by
  rw [List.forall_mem_cons] at answers
  have openings : Cell.openTag (.unit (some .left) []) = leftTag ∧
      Cell.openTag (.unit none []) = cellTag := by decide
  have leading : Cell.html? content? (.unit (some .left) first) =
      some (leftTag ++ shows first ++ cellEnd) := by
    have opening : Cell.openTag (.unit (some .left) first) = leftTag := openings.1
    have content : (Cell.unit (some .left) first).content = first := rfl
    rw [Cell.html?, content, answers.1, opening]
    rfl
  have following : (others.map (Cell.unit none)).mapM (Cell.html? content?) =
      some (others.map fun content => cellTag ++ shows content ++ cellEnd) := by
    rw [List.mapM_map]
    refine mapM_of_answers fun content member => ?_
    have opening : Cell.openTag (.unit none content) = cellTag := openings.2
    have same : (Cell.unit none content).content = content := rfl
    rw [Function.comp_apply, Cell.html?, same, answers.2 content member, opening]
    rfl
  have row : (unitRow first others).html? content? =
      some (writtenUnits (shows first) (others.map shows) ++ ['\n']) := by
    have opening : (unitRow first others).openTag = rowTag := rfl
    rw [Row.html?_eq, opening, unitRow, List.mapM_cons, leading, following]
    simp only [Option.pure_def, Option.bind_eq_bind, Option.bind_some, Option.map_some,
      List.flatten_cons, writtenUnits, List.flatMap_def, List.map_map, Function.comp_def,
      List.append_assoc]
  rw [html?_eq, List.mapM_cons, row]
  simp only [List.mapM_nil, Option.pure_def, Option.bind_eq_bind, Option.bind_some,
    Option.map_some, List.flatten_cons, List.flatten_nil, List.append_nil, rowTable,
    List.append_assoc, List.cons_append, List.nil_append]

/-- The output of a single cell. -/
theorem html?_single (content? : Text → Option Text) (text : Text) :
    html? content? [unitRow text []] = (content? text).map singleCell := by
  cases answer : content? text with
  | none => simp [html?, Row.html?, unitRow, Cell.html?, Cell.unit, answer]
  | some content =>
    have answers : ∀ other ∈ [text], content? other = some ((fun _ => content) other) :=
      List.forall_mem_singleton.mpr answer
    rw [html?_unitRow answers, Option.map_some, singleCell_eq]
    rfl

/-- A text without commands, punctuation and tokens. -/
structure IsFinished (text : Text) : Prop where
  plain : '\\' ∉ text
  unpunctuated : ∀ entry ∈ Symbol.punctuation, ¬ entry.1 <:+: text
  tokenless : ¬ Fragment.tokenOpening <:+: text

theorem unescapeSpecials_of_plain {text : Text} (plain : '\\' ∉ text) :
    unescapeSpecials text = text := by
  have escaped : ∀ entry ∈ escapedSpecials, '\\' ∈ entry.1 := by decide
  exact foldl_fixed_of_mem _ fun entry member =>
    replaceAll_of_absent (fun occurs => plain (occurs.subset (escaped entry member))) entry.2

theorem renderStyles_of_plain {text : Text} (plain : '\\' ∉ text) (colors : ColorTable) :
    renderStyles colors text = text := by
  rw [renderStyles, foldl_fixed_of_mem Style.commands fun _ _ => replaceCommand_of_plain plain ..]
  simp only [replaceDeclaration_of_escaped (.of_plain plain), replaceCommand_of_plain plain]

/-- Only the blanks around a finished text are dropped. -/
theorem finishCell_of_finished {text : Text} (finished : IsFinished text) (colors : ColorTable)
    (store : FragmentStore) :
    finishCell colors store text = Text.trim text := by
  have tokenless : Fragment.TokenFree (Text.trim text) :=
    (Fragment.tokenFree_trim text).mpr (.of_absent finished.tokenless)
  rw [finishCell, renderStyles_of_plain finished.plain, unescapeSpecials_of_plain finished.plain,
    Symbol.normalize_of_unpunctuated (.of_plain finished.plain) finished.unpunctuated,
    Fragment.restore_of_tokenFree tokenless]

/-- A single cell that has an output is the table. -/
theorem render_of_single {text written : Text} (single : IsSingleCell text) {colors : ColorTable}
    (converted : renderCell? colors (render? colors) (Text.trim text) = some written) :
    render colors "l".toList text = singleCell written := by
  rw [render, render?, renderGrid?, readGrid_of_single single, html?_single, converted]
  rfl

end Table

end LatexMarkdown
