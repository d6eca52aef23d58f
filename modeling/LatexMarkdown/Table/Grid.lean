import LatexMarkdown.Html
import LatexMarkdown.Table.Column
import LatexMarkdown.Table.Row

/-!
# The grid of a table

A cell may span columns and rows. Under a cell that spans rows the source has
empty cells, which are left out of the grid. To know them, each column carries
the number of rows for which it is still covered.
-/

namespace LatexMarkdown.Table

/-- A cell: its content, how many columns and rows it spans, its own alignment
and its own background. -/
structure Cell where
  content : Text
  columnSpan : Nat
  rowSpan : Nat
  alignment : Option Alignment
  background : Option Text
  deriving DecidableEq, Repr

namespace Cell

/-- A cell without content. -/
def empty : Cell :=
  ⟨[], 1, 1, none, none⟩

/-- A span as it is written, at least one and at most the greatest span. -/
def readSpan (text : Text) : Nat :=
  max 1 (min maxSpan (readCount text))

/-- Read a cell, taking its spans and its colour out of the content. -/
def read (colors : ColorTable) (text : Text) : Cell :=
  let (cell, text) := Scan.editCommand "multicolumn".toList ⟨true, 0, 3⟩
    (fun (cell : Cell) arguments =>
      ({ cell with
          columnSpan := readSpan (arguments.argument 0),
          alignment := (columns (arguments.argument 1)).head? },
        some (arguments.argument 2))) empty (Text.trim text)
  let (cell, text) := Scan.editCommand "multirow".toList ⟨true, 1, 3⟩
    (fun (cell : Cell) arguments =>
      ({ cell with rowSpan := readSpan (arguments.argument 0) },
        some (arguments.argument 2))) cell text
  let (cell, text) := Scan.editCommand "cellcolor".toList ⟨true, 1, 1⟩
    (fun (cell : Cell) arguments =>
      let color := colors.resolveInModel (arguments.option? 0) (arguments.argument 0)
      ({ cell with background := some color }, some [])) cell text
  { cell with content := Text.trim text }

/-- Whether nothing would be lost without the cell. -/
def isPlaceholder (cell : Cell) : Bool :=
  cell.content.isEmpty && cell.columnSpan ≤ 1 && cell.rowSpan ≤ 1 && cell.background.isNone

/-- The columns that a cell takes in the grid. -/
def width (cell : Cell) : Nat :=
  max 1 (min maxSpan cell.columnSpan)

/-- The rows that a cell takes in the grid. -/
def height (cell : Cell) : Nat :=
  max 1 (min maxSpan cell.rowSpan)

end Cell

/-- A row of the grid. -/
structure Row where
  cells : List Cell
  background : Option Text
  deriving DecidableEq, Repr

/-- The cells of a row that are kept, and the rows for which each column is
covered after it. Both lists passed in begin at the column of the first cell:
how long the columns are covered so far, and how they are aligned. -/
def placeCells : (coverage : List Nat) -> List Alignment -> List Cell -> List Cell × List Nat
  | coverage, _, [] => ([], coverage)
  | coverage, alignments, cell :: others =>
    let (kept, later) :=
      placeCells (coverage.drop cell.width) (alignments.drop cell.width) others
    if coverage.headD 0 ≠ 0 && cell.isPlaceholder then
      (kept, (coverage.take cell.width).map (· - 1) ++ later)
    else
      ({ cell with alignment := cell.alignment <|> alignments.head? } :: kept,
        List.replicate cell.width (cell.height - 1) ++ later)

/-- A grid while its rows are added: the rows and the coverage of its columns. -/
structure Grid where
  rows : List Row
  coverage : List Nat
  deriving DecidableEq, Repr

namespace Grid

/-- No row is there yet. -/
def empty : Grid :=
  ⟨[], []⟩

/-- Add a row; one without any cell to keep adds none. -/
def addRow (alignments : List Alignment) (grid : Grid) (row : Row) : Grid :=
  let (kept, coverage) := placeCells grid.coverage alignments row.cells
  ⟨if kept.isEmpty then grid.rows else grid.rows ++ [⟨kept, row.background⟩], coverage⟩

end Grid

/-- The rows of the body of a table as they are written. Rows that are blank
without their rules and colour are none. -/
def readRows (colors : ColorTable) (body : Text) : List Row :=
  (splitRows (dropRepeatedHeaders body)).filterMap fun row =>
    let (background, row) := takeRowColor colors (stripRules row)
    if Text.isBlankText row then none
    else some ⟨(splitCells row).map (Cell.read colors), background⟩

/-- The grid of a table. -/
def readGrid (colors : ColorTable) (alignments : List Alignment) (body : Text) : List Row :=
  ((readRows colors body).foldl (Grid.addRow alignments) .empty).rows

/-- An attribute with a number, left out for one. -/
def spanAttribute (name : String) (span : Nat) : Text :=
  if 1 < span then ' ' :: name.toList ++ "=\"".toList ++ Text.ofNat span ++ ['"'] else []

/-- The tag that opens a cell. -/
def Cell.openTag (cell : Cell) : Text :=
  let style := (cell.alignment.bind Alignment.css?).toList.map (Html.property "text-align") ++
    cell.background.toList.map (Html.property "background-color")
  "<td".toList ++ spanAttribute "colspan" cell.columnSpan ++
    spanAttribute "rowspan" cell.rowSpan ++
    (if style.isEmpty then [] else " style=\"".toList ++ Text.joinWith [' '] style ++ ['"']) ++
    ['>']

/-- The tag that opens a row. -/
def Row.openTag (row : Row) : Text :=
  match row.background with
  | some color => Html.openStyled "tr" (Html.property "background-color" color)
  | none => "<tr>".toList

/-- A cell of the output; there is none if its content cannot be written. -/
def Cell.html? (content? : Text -> Option Text) (cell : Cell) : Option Text :=
  (content? cell.content).map fun content => cell.openTag ++ content ++ "</td>".toList

/-- A row of the output. -/
def Row.html? (content? : Text -> Option Text) (row : Row) : Option Text :=
  (row.cells.mapM (Cell.html? content?)).map fun cells =>
    row.openTag ++ cells.flatten ++ "</tr>\n".toList

/-- The table of the output, if the contents of all cells can be written. -/
def html? (content? : Text -> Option Text) (rows : List Row) : Option Text :=
  (rows.mapM (Row.html? content?)).map fun rows =>
    "\n<table class=\"latex-table\">\n".toList ++ rows.flatten ++ "</table>\n".toList

end LatexMarkdown.Table
