import LatexMarkdown.Proofs.Editor
import LatexMarkdown.Table.Grid
import Mathlib.Algebra.GroupWithZero.Nat
import Mathlib.Data.List.GetD

/-!
# The layout of a grid

The output does not name columns: a cell goes to the first column of its row
that no cell above it takes. The source does name them, because every cell is
written, the empty ones below a cell that spans rows included. Both agree as
long as the coverage of the columns is counted down once for every row, which
happens only where a row has cells, and as long as no row is left out.
-/

namespace LatexMarkdown.Table

/-- The columns that the output gives to a cell; without an attribute it is one. -/
def Cell.columnCount (cell : Cell) : Nat :=
  max 1 cell.columnSpan

/-- The rows that the output gives to a cell. -/
def Cell.rowCount (cell : Cell) : Nat :=
  max 1 cell.rowSpan

/-- The columns that the cells of a row take one after another. -/
def Row.columnCount (row : Row) : Nat :=
  (row.cells.map Cell.columnCount).sum

/-- Spans that are not cut when a cell is put into the grid. -/
def Cell.SpansFit (cell : Cell) : Prop :=
  cell.columnSpan ≤ maxSpan ∧ cell.rowSpan ≤ maxSpan

instance (cell : Cell) : Decidable cell.SpansFit :=
  inferInstanceAs (Decidable (_ ∧ _))

theorem Cell.SpansFit.width_eq {cell : Cell} (fit : cell.SpansFit) :
    cell.width = cell.columnCount := by
  rw [Cell.width, Cell.columnCount, Nat.min_eq_right fit.1]

theorem Cell.SpansFit.height_eq {cell : Cell} (fit : cell.SpansFit) :
    cell.height = cell.rowCount := by
  rw [Cell.height, Cell.rowCount, Nat.min_eq_right fit.2]

theorem Cell.readSpan_le (text : Text) : Cell.readSpan text ≤ maxSpan := by
  have : 1 ≤ maxSpan := by decide
  rw [Cell.readSpan]
  omega

/-- The spans of a cell that is read from a text fit. -/
theorem Cell.spansFit_read (colors : ColorTable) (text : Text) :
    (Cell.read colors text).SpansFit := by
  have multicolumn := (Scan.Editor.command "multicolumn".toList ⟨true, 0, 3⟩).edit_keeps
    (fun (cell : Cell) arguments =>
      ({ cell with
          columnSpan := readSpan (arguments.argument 0),
          alignment := (columns (arguments.argument 1)).head? },
        some (arguments.argument 2)))
    (fun _ _ fit => ⟨readSpan_le _, fit.2⟩) .empty
    (by decide : Cell.empty.SpansFit) (Text.trim text)
  have multirow := (Scan.Editor.command "multirow".toList ⟨true, 1, 3⟩).edit_keeps
    (fun (cell : Cell) arguments =>
      ({ cell with rowSpan := readSpan (arguments.argument 0) }, some (arguments.argument 2)))
    (fun _ _ fit => ⟨fit.1, readSpan_le _⟩) _ multicolumn
  exact (Scan.Editor.command "cellcolor".toList ⟨true, 1, 1⟩).edit_keeps _
    (fun _ _ fit => fit) _ (multirow _) _

theorem spansFit_of_mem_readRows {colors : ColorTable} {body : Text} {row : Row} {cell : Cell}
    (rowMember : row ∈ readRows colors body) (cellMember : cell ∈ row.cells) :
    cell.SpansFit := by
  obtain ⟨source, -, reading⟩ := List.mem_filterMap.mp rowMember
  simp only [Option.ite_none_left_eq_some, Option.some.injEq] at reading
  obtain ⟨-, rfl⟩ := reading
  obtain ⟨text, -, rfl⟩ := List.mem_map.mp cellMember
  exact Cell.spansFit_read colors text

theorem Cell.columnCount_of_isPlaceholder {cell : Cell} (placeholder : cell.isPlaceholder) :
    cell.columnCount = 1 := by
  simp only [Cell.isPlaceholder, Bool.and_eq_true, decide_eq_true_eq] at placeholder
  rw [Cell.columnCount]
  omega

theorem Cell.rowCount_of_isPlaceholder {cell : Cell} (placeholder : cell.isPlaceholder) :
    cell.rowCount = 1 := by
  simp only [Cell.isPlaceholder, Bool.and_eq_true, decide_eq_true_eq] at placeholder
  rw [Cell.rowCount]
  omega

/-! ## Placed cells -/

/-- A cell with the row and the column where it begins. -/
structure Placement where
  row : Nat
  column : Nat
  cell : Cell
  deriving DecidableEq, Repr

namespace Placement

/-- The first column after the cell. -/
def columnEnd (placement : Placement) : Nat :=
  placement.column + placement.cell.columnCount

/-- The first row after the cell. -/
def rowEnd (placement : Placement) : Nat :=
  placement.row + placement.cell.rowCount

theorem column_lt_columnEnd (placement : Placement) : placement.column < placement.columnEnd := by
  rw [columnEnd, Cell.columnCount]
  omega

theorem row_lt_rowEnd (placement : Placement) : placement.row < placement.rowEnd := by
  rw [rowEnd, Cell.rowCount]
  omega

/-- Whether a slot of the grid belongs to the cell. -/
def Takes (placement : Placement) (row column : Nat) : Prop :=
  placement.row ≤ row ∧ row < placement.rowEnd ∧
    placement.column ≤ column ∧ column < placement.columnEnd

instance (placement : Placement) (row column : Nat) : Decidable (placement.Takes row column) :=
  inferInstanceAs (Decidable (_ ∧ _ ∧ _ ∧ _))

/-- Whether two cells meet, in their rows and in their columns. -/
def Overlaps (first second : Placement) : Prop :=
  first.row < second.rowEnd ∧ second.row < first.rowEnd ∧
    first.column < second.columnEnd ∧ second.column < first.columnEnd

instance (first second : Placement) : Decidable (first.Overlaps second) :=
  inferInstanceAs (Decidable (_ ∧ _ ∧ _ ∧ _))

/-- Cells overlap exactly when some slot belongs to both. -/
theorem overlaps_iff_takes {first second : Placement} :
    first.Overlaps second ↔
      ∃ row column, first.Takes row column ∧ second.Takes row column := by
  have firstRow := first.row_lt_rowEnd
  have firstColumn := first.column_lt_columnEnd
  have secondRow := second.row_lt_rowEnd
  have secondColumn := second.column_lt_columnEnd
  constructor
  · rintro ⟨above, below, before, behind⟩
    refine ⟨max first.row second.row, max first.column second.column, ?_, ?_⟩
    · refine ⟨?_, ?_, ?_, ?_⟩ <;> omega
    · refine ⟨?_, ?_, ?_, ?_⟩ <;> omega
  · rintro ⟨row, column, ⟨_, _, _, _⟩, ⟨_, _, _, _⟩⟩
    refine ⟨?_, ?_, ?_, ?_⟩ <;> omega

/-- A cell of an earlier row overlaps a cell exactly when it takes a slot where
that cell begins its rows. -/
theorem overlaps_iff_of_row_lt {upper lower : Placement} (above : upper.row < lower.row) :
    upper.Overlaps lower ↔
      ∃ column, lower.column ≤ column ∧ column < lower.columnEnd ∧
        upper.Takes lower.row column := by
  have upperColumn := upper.column_lt_columnEnd
  have lowerColumn := lower.column_lt_columnEnd
  have lowerRow := lower.row_lt_rowEnd
  constructor
  · rintro ⟨_, reaches, before, behind⟩
    refine ⟨max upper.column lower.column, by omega, by omega, ?_⟩
    refine ⟨?_, ?_, ?_, ?_⟩ <;> omega
  · rintro ⟨column, _, _, ⟨_, _, _, _⟩⟩
    refine ⟨?_, ?_, ?_, ?_⟩ <;> omega

/-- The cell with the alignment of its column, unless it has one of its own. -/
def aligned (alignments : List Alignment) (placement : Placement) : Placement :=
  { placement with cell :=
      { placement.cell with
        alignment := placement.cell.alignment <|> alignments[placement.column]? } }

theorem takes_aligned (alignments : List Alignment) (placement : Placement) (row column : Nat) :
    (placement.aligned alignments).Takes row column ↔ placement.Takes row column :=
  Iff.rfl

end Placement

/-! ## Where the output puts the cells -/

/-- A column behind all placed cells. -/
def rightEnd (placed : List Placement) : Nat :=
  placed.foldr (fun placement furthest => max placement.columnEnd furthest) 0

theorem columnEnd_le_rightEnd {placed : List Placement} {placement : Placement}
    (member : placement ∈ placed) : placement.columnEnd ≤ rightEnd placed := by
  induction placed with
  | nil => cases member
  | cons first others inductionHypothesis =>
    rw [rightEnd, List.foldr_cons]
    rcases List.mem_cons.mp member with rfl | member
    · exact Nat.le_max_left _ _
    · exact (inductionHypothesis member).trans (Nat.le_max_right _ _)

/-- The first free column of a row, from a column on, after at most some steps. -/
def firstFree (placed : List Placement) (row : Nat) : (steps column : Nat) → Nat
  | 0, column => column
  | steps + 1, column =>
    if ∃ placement ∈ placed, placement.Takes row column then
      firstFree placed row steps (column + 1)
    else column

/-- Put the cells of a row into the first free columns, one behind the other.
`placed` are the cells of the rows above. -/
def layoutRow (placed : List Placement) (row : Nat) : (column : Nat) → List Cell → List Placement
  | _, [] => []
  | column, cell :: others =>
    let placement : Placement := ⟨row, firstFree placed row (rightEnd placed) column, cell⟩
    placement :: layoutRow placed row placement.columnEnd others

/-- Where the cells of a table are in the output. -/
def layout (rows : List Row) : List Placement :=
  rows.zipIdx.foldl
    (fun placed (row, number) => placed ++ layoutRow placed number 0 row.cells) []

theorem layout_concat (rows : List Row) (row : Row) :
    layout (rows ++ [row]) =
      layout rows ++ layoutRow (layout rows) rows.length 0 row.cells := by
  simp [layout, List.zipIdx_append]

/-- The first free column is the one behind a stretch of taken columns. -/
theorem firstFree_eq {placed : List Placement} {row column : Nat}
    (free : ¬ ∃ placement ∈ placed, placement.Takes row column) {steps cursor : Nat}
    (reached : cursor ≤ column) (near : column ≤ cursor + steps)
    (taken : ∀ passed, cursor ≤ passed → passed < column →
      ∃ placement ∈ placed, placement.Takes row passed) :
    firstFree placed row steps cursor = column := by
  induction steps generalizing cursor with
  | zero =>
    rw [firstFree]
    omega
  | succ steps inductionHypothesis =>
    rw [firstFree]
    by_cases arrived : cursor = column
    · rw [arrived, if_neg free]
    · rw [if_pos (taken cursor (Nat.le_refl _) (by omega))]
      refine inductionHypothesis (by omega) (by omega) fun passed from_cursor before => ?_
      exact taken passed (by omega) before

/-- The steps of a layout are enough to pass all taken columns. -/
theorem firstFree_rightEnd_eq {placed : List Placement} {row cursor column : Nat}
    (free : ¬ ∃ placement ∈ placed, placement.Takes row column) (reached : cursor ≤ column)
    (taken : ∀ passed, cursor ≤ passed → passed < column →
      ∃ placement ∈ placed, placement.Takes row passed) :
    firstFree placed row (rightEnd placed) cursor = column := by
  refine firstFree_eq free reached ?_ taken
  by_cases arrived : cursor = column
  · omega
  · obtain ⟨placement, member, _, _, _, before⟩ := taken (column - 1) (by omega) (by omega)
    have inside := columnEnd_le_rightEnd member
    omega

/-! ## Where the source has the cells -/

/-- The cells of a row with the columns where they are written. -/
def writtenRow (row : Nat) : (column : Nat) → List Cell → List Placement
  | _, [] => []
  | column, cell :: others =>
    let placement : Placement := ⟨row, column, cell⟩
    placement :: writtenRow row placement.columnEnd others

/-- The cells of a table with the rows and columns where they are written. -/
def written (rows : List Row) : List Placement :=
  rows.zipIdx.flatMap fun (row, number) => writtenRow number 0 row.cells

/-- Whether a written cell stands below a cell that spans rows. -/
def IsCovered (rows : List Row) (lower : Placement) : Prop :=
  ∃ upper ∈ written rows, upper.row < lower.row ∧ upper.Overlaps lower

instance (rows : List Row) (lower : Placement) : Decidable (IsCovered rows lower) :=
  inferInstanceAs (Decidable (∃ upper ∈ written rows, _))

/-- The written cells that do not stand below a cell that spans rows. -/
def uncovered (rows : List Row) : List Placement :=
  (written rows).filter fun placement => ¬ IsCovered rows placement

theorem written_concat (rows : List Row) (row : Row) :
    written (rows ++ [row]) = written rows ++ writtenRow rows.length 0 row.cells := by
  simp [written, List.zipIdx_append]

theorem row_eq_of_mem_writtenRow {row column : Nat} {cells : List Cell} {placement : Placement}
    (member : placement ∈ writtenRow row column cells) : placement.row = row := by
  induction cells generalizing column with
  | nil => cases member
  | cons cell others inductionHypothesis =>
    rcases List.mem_cons.mp member with rfl | member
    · rfl
    · exact inductionHypothesis member

/-- The written cells of a row lie between its first column and its end. -/
theorem columns_of_mem_writtenRow {row column : Nat} {cells : List Cell} {placement : Placement}
    (member : placement ∈ writtenRow row column cells) :
    column ≤ placement.column ∧
      placement.columnEnd ≤ column + (cells.map Cell.columnCount).sum := by
  induction cells generalizing column with
  | nil => cases member
  | cons cell others inductionHypothesis =>
    rw [List.map_cons, List.sum_cons]
    rcases List.mem_cons.mp member with rfl | member
    · refine ⟨Nat.le_refl _, ?_⟩
      simp only [Placement.columnEnd]
      omega
    · have later := inductionHypothesis member
      simp only [Placement.columnEnd] at later ⊢
      omega

/-- A written cell belongs to a row of the table. -/
theorem exists_row_of_mem_written {rows : List Row} {placement : Placement}
    (member : placement ∈ written rows) :
    ∃ row, rows[placement.row]? = some row ∧
      placement ∈ writtenRow placement.row 0 row.cells := by
  obtain ⟨⟨row, number⟩, numbered, inRow⟩ := List.mem_flatMap.mp member
  obtain rfl := row_eq_of_mem_writtenRow inRow
  exact ⟨row, by simpa using List.mem_zipIdx_iff_getElem?.mp numbered, inRow⟩

theorem row_lt_length_of_mem_written {rows : List Row} {placement : Placement}
    (member : placement ∈ written rows) : placement.row < rows.length := by
  obtain ⟨row, found, -⟩ := exists_row_of_mem_written member
  exact (List.getElem?_eq_some_iff.mp found).1

/-- What covers a cell of the rows so far does not change with another row. -/
theorem isCovered_concat_iff {rows : List Row} (row : Row) {lower : Placement}
    (above : lower.row ≤ rows.length) :
    IsCovered (rows ++ [row]) lower ↔ IsCovered rows lower := by
  simp only [IsCovered, written_concat, List.mem_append]
  constructor
  · rintro ⟨upper, member | member, higher, overlap⟩
    · exact ⟨upper, member, higher, overlap⟩
    · have := row_eq_of_mem_writtenRow member
      omega
  · rintro ⟨upper, member, higher, overlap⟩
    exact ⟨upper, Or.inl member, higher, overlap⟩

theorem uncovered_concat (rows : List Row) (row : Row) :
    uncovered (rows ++ [row]) =
      uncovered rows ++
        (writtenRow rows.length 0 row.cells).filter fun placement =>
          ¬ IsCovered rows placement := by
  rw [uncovered, written_concat, List.filter_append, uncovered]
  congr 1
  · refine List.filter_congr fun placement member => ?_
    exact decide_eq_decide.mpr
      (not_congr (isCovered_concat_iff row (row_lt_length_of_mem_written member).le))
  · refine List.filter_congr fun placement member => ?_
    exact decide_eq_decide.mpr
      (not_congr (isCovered_concat_iff row (row_eq_of_mem_writtenRow member).le))

/-! ## One row of the grid -/

section Row

variable {row column : Nat} {cells : List Cell} {coverage : List Nat}

/-- What is known of a row when the cells from a column on are placed: their
spans are not cut, and a cell over a covered column is a placeholder. -/
structure RowFits (row column : Nat) (cells : List Cell) (coverage : List Nat) : Prop where
  spans : ∀ cell ∈ cells, cell.SpansFit
  placeholders : ∀ placement ∈ writtenRow row column cells, ∀ slot,
    placement.column ≤ slot → slot < placement.columnEnd → coverage.getD slot 0 ≠ 0 →
      placement.cell.isPlaceholder

theorem RowFits.tail {cell : Cell} (fits : RowFits row column (cell :: cells) coverage) :
    RowFits row (column + cell.columnCount) cells coverage where
  spans := fun other member => fits.spans other (List.mem_cons_of_mem _ member)
  placeholders := fun placement member =>
    fits.placeholders placement (List.mem_cons_of_mem _ member)

/-- A cell that begins at a column that is not covered stands over no covered
column: over one it would be a placeholder, which has a single column. -/
theorem RowFits.uncovered {cell : Cell} (fits : RowFits row column (cell :: cells) coverage)
    (free : coverage.getD column 0 = 0) {slot : Nat} (after : column ≤ slot)
    (before : slot < column + cell.columnCount) : coverage.getD slot 0 = 0 := by
  by_contra covered
  have placeholder := fits.placeholders _ List.mem_cons_self slot after before covered
  rw [Cell.columnCount_of_isPlaceholder placeholder] at before
  obtain rfl : slot = column := by omega
  exact covered free

theorem RowFits.placeholder {cell : Cell} (fits : RowFits row column (cell :: cells) coverage)
    (covered : coverage.getD column 0 ≠ 0) : cell.isPlaceholder :=
  fits.placeholders _ List.mem_cons_self column (Nat.le_refl _)
    (Placement.column_lt_columnEnd ⟨row, column, cell⟩) covered

/-- A placeholder over a covered column is left out, and the column is covered
for one row less. -/
theorem placeCells_covered {cell : Cell} (fit : cell.SpansFit) (alignments : List Alignment)
    (covered : coverage.getD column 0 ≠ 0) (placeholder : cell.isPlaceholder) :
    placeCells (coverage.drop column) alignments (cell :: cells) =
      ((placeCells (coverage.drop (column + 1)) (alignments.drop 1) cells).1,
        (coverage.getD column 0 - 1) ::
          (placeCells (coverage.drop (column + 1)) (alignments.drop 1) cells).2) := by
  have inside : column < coverage.length := by
    by_contra outside
    exact covered (List.getD_eq_default _ _ (by omega))
  have here : coverage.drop column = coverage.getD column 0 :: coverage.drop (column + 1) := by
    rw [List.drop_eq_getElem_cons inside, List.getD_eq_getElem _ _ inside]
  have width : cell.width = 1 := by
    rw [fit.width_eq, Cell.columnCount_of_isPlaceholder placeholder]
  have kept : (coverage.getD column 0 ≠ 0 && cell.isPlaceholder) = true := by
    rw [placeholder, Bool.and_true]
    exact decide_eq_true covered
  simp only [placeCells, here, List.headD_cons, kept, if_true, width]
  rfl

/-- A cell over columns that are not covered is kept, and covers them. -/
theorem placeCells_uncovered {cell : Cell} (fit : cell.SpansFit) (alignments : List Alignment)
    (free : coverage.getD column 0 = 0) :
    placeCells (coverage.drop column) alignments (cell :: cells) =
      ({ cell with alignment := cell.alignment <|> alignments.head? } ::
          (placeCells (coverage.drop (column + cell.columnCount))
            (alignments.drop cell.columnCount) cells).1,
        List.replicate cell.columnCount (cell.rowCount - 1) ++
          (placeCells (coverage.drop (column + cell.columnCount))
            (alignments.drop cell.columnCount) cells).2) := by
  have head : (coverage.drop column).headD 0 = 0 := by
    rw [List.headD_eq_head?_getD, List.head?_drop, ← List.getD_eq_getElem?_getD, free]
  rw [placeCells, head, fit.width_eq, fit.height_eq, List.drop_drop]
  simp

/-- The kept cells of a row stand in the output where they are written. The
output has come to a column behind which everything is taken so far. -/
theorem layoutRow_placeCells {placed : List Placement} (alignments : List Alignment)
    (taken : ∀ slot, (∃ placement ∈ placed, placement.Takes row slot) ↔ coverage.getD slot 0 ≠ 0)
    {isFree : Placement → Bool}
    (freed : ∀ placement ∈ writtenRow row column cells, isFree placement ↔
      ∀ slot, placement.column ≤ slot → slot < placement.columnEnd → coverage.getD slot 0 = 0)
    (fits : RowFits row column cells coverage) {cursor : Nat} (reached : cursor ≤ column)
    (passed : ∀ slot, cursor ≤ slot → slot < column → coverage.getD slot 0 ≠ 0) :
    layoutRow placed row cursor
        (placeCells (coverage.drop column) (alignments.drop column) cells).1 =
      ((writtenRow row column cells).filter isFree).map (Placement.aligned alignments) := by
  induction cells generalizing column cursor with
  | nil => rfl
  | cons cell others inductionHypothesis =>
    have fit := fits.spans cell List.mem_cons_self
    have freedHere := freed _ List.mem_cons_self
    have freedLater := fun placement member =>
      freed placement (List.mem_cons_of_mem _ member)
    rw [writtenRow]
    by_cases free : coverage.getD column 0 = 0
    · have position : firstFree placed row (rightEnd placed) cursor = column := by
        refine firstFree_rightEnd_eq ?_ reached fun slot after before => ?_
        · exact fun takes => (taken column).mp takes free
        · exact (taken slot).mpr (passed slot after before)
      have kept : isFree ⟨row, column, cell⟩ :=
        freedHere.mpr fun slot after before => fits.uncovered free after before
      rw [placeCells_uncovered fit _ free, List.filter_cons_of_pos kept, List.map_cons,
        layoutRow, position, List.drop_drop]
      congr 1
      · simp [Placement.aligned, List.head?_drop]
      · refine inductionHypothesis freedLater fits.tail (Nat.le_refl _) fun slot after before => ?_
        simp only [Placement.columnEnd, Cell.columnCount] at after before
        omega
    · have placeholder := fits.placeholder free
      have one := Cell.columnCount_of_isPlaceholder placeholder
      have dropped : ¬ isFree ⟨row, column, cell⟩ := fun kept =>
        free (freedHere.mp kept column (Nat.le_refl _) (by simp [Placement.columnEnd, one]))
      have tail := fits.tail
      simp only [Placement.columnEnd, one] at tail freedLater ⊢
      rw [placeCells_covered fit _ free placeholder, List.filter_cons_of_neg dropped,
        List.drop_drop]
      refine inductionHypothesis freedLater tail (by omega) fun slot after before => ?_
      by_cases here : slot = column
      · rwa [here]
      · exact passed slot after (by omega)

/-- A column before the cells of a row belongs to none of them. -/
theorem not_takes_of_lt {later slot : Nat} (before : slot < column) :
    ¬ ∃ placement ∈ writtenRow row column cells, placement.Takes later slot := by
  rintro ⟨placement, member, -, -, behind, -⟩
  have := (columns_of_mem_writtenRow member).1
  omega

/-- After a row that reaches all covered columns, a column is covered for a
later row exactly when it was before, or when a cell of the row comes down to
that row. -/
theorem coverage_placeCells (alignments : List Alignment)
    (fits : RowFits row column cells coverage)
    (reaches : ∀ slot, column + (cells.map Cell.columnCount).sum ≤ slot →
      coverage.getD slot 0 = 0)
    {later slot : Nat} (below : row < later) (after : column ≤ slot) :
    (later < row + coverage.getD slot 0 ∨
        ∃ placement ∈ writtenRow row column cells, placement.Takes later slot) ↔
      later < row + 1 +
        (placeCells (coverage.drop column) alignments cells).2.getD (slot - column) 0 := by
  induction cells generalizing column alignments with
  | nil =>
    have none := reaches slot (by simpa using after)
    have dropped : (coverage.drop column).getD (slot - column) 0 = 0 := by
      rw [List.getD_eq_getElem?_getD, List.getElem?_drop, Nat.add_sub_cancel' after,
        ← List.getD_eq_getElem?_getD, none]
    simp only [writtenRow, List.not_mem_nil, false_and, exists_false, or_false, placeCells]
    omega
  | cons cell others inductionHypothesis =>
    have fit := fits.spans cell List.mem_cons_self
    have behindHead := fun behind => inductionHypothesis (alignments.drop cell.columnCount)
      fits.tail (fun slot further =>
        reaches slot (by rw [List.map_cons, List.sum_cons]; omega)) behind
    simp only [writtenRow, List.exists_mem_cons_iff]
    by_cases within : slot < column + cell.columnCount
    · have notLater : ¬ ∃ placement ∈ writtenRow row (column + cell.columnCount) others,
          placement.Takes later slot := not_takes_of_lt within
      simp only [Placement.columnEnd, notLater, or_false]
      simp only [Placement.Takes, Placement.rowEnd, Placement.columnEnd]
      by_cases free : coverage.getD column 0 = 0
      · have none := fits.uncovered free after within
        rw [placeCells_uncovered fit _ free, List.getD_append _ _ _ _ (by simp; omega),
          List.getD_replicate _ (by omega)]
        have := Placement.row_lt_rowEnd ⟨row, column, cell⟩
        simp only [Placement.rowEnd] at this
        omega
      · have placeholder := fits.placeholder free
        have columns := Cell.columnCount_of_isPlaceholder placeholder
        have rows := Cell.rowCount_of_isPlaceholder placeholder
        obtain rfl : slot = column := by omega
        rw [placeCells_covered fit _ free placeholder, Nat.sub_self, List.getD_cons_zero]
        omega
    · have notHead : ¬ (⟨row, column, cell⟩ : Placement).Takes later slot :=
        fun takes => within takes.2.2.2
      simp only [Placement.columnEnd, notHead, false_or]
      rw [behindHead (by omega)]
      by_cases free : coverage.getD column 0 = 0
      · rw [placeCells_uncovered fit _ free, List.getD_append_right _ _ _ _ (by simp; omega),
          List.length_replicate, Nat.sub_add_eq]
      · have placeholder := fits.placeholder free
        rw [placeCells_covered fit _ free placeholder,
          Cell.columnCount_of_isPlaceholder placeholder,
          show slot - column = slot - (column + 1) + 1 by
            have := Cell.columnCount_of_isPlaceholder placeholder
            omega, List.getD_cons_succ]

end Row

/-! ## All rows of the grid -/

/-- Rows as the source of a table has them: none is wider than the table, and
below a cell that spans rows there are empty cells. -/
structure Fits (columns : Nat) (rows : List Row) : Prop where
  spans : ∀ row ∈ rows, ∀ cell ∈ row.cells, cell.SpansFit
  narrow : ∀ row ∈ rows, row.columnCount ≤ columns
  placeholders : ∀ upper ∈ written rows, ∀ lower ∈ written rows,
    upper.row < lower.row → upper.Overlaps lower → lower.cell.isPlaceholder

/-- Rows under which the coverage is counted down as the rows go by: each has
cells down to the last covered column, and one of them is kept. -/
structure Counted (rows : List Row) : Prop where
  reaches : ∀ upper ∈ written rows, ∀ lower ∈ rows.zipIdx,
    upper.row < lower.2 → lower.2 < upper.rowEnd → upper.columnEnd ≤ lower.1.columnCount
  keeps : ∀ number < rows.length, ∃ placement ∈ uncovered rows, placement.row = number

section Run

variable {columns : Nat} {rows : List Row} {row : Row}

theorem Fits.init (fits : Fits columns (rows ++ [row])) : Fits columns rows where
  spans := fun other member => fits.spans other (List.mem_append_left _ member)
  narrow := fun other member => fits.narrow other (List.mem_append_left _ member)
  placeholders := fun upper upperMember lower lowerMember =>
    fits.placeholders upper (by rw [written_concat]; exact List.mem_append_left _ upperMember)
      lower (by rw [written_concat]; exact List.mem_append_left _ lowerMember)

theorem Counted.init (counted : Counted (rows ++ [row])) : Counted rows where
  reaches := fun upper upperMember lower lowerMember =>
    counted.reaches upper (by rw [written_concat]; exact List.mem_append_left _ upperMember)
      lower (by rw [List.zipIdx_append]; exact List.mem_append_left _ lowerMember)
  keeps := by
    intro number before
    obtain ⟨placement, member, rfl⟩ := counted.keeps number (by simp; omega)
    rw [uncovered_concat] at member
    rcases List.mem_append.mp member with member | member
    · exact ⟨placement, member, rfl⟩
    · have := row_eq_of_mem_writtenRow (List.mem_filter.mp member).1
      omega

/-- The cells of the rows so far as the grid knows them: the output has the
uncovered ones where they are written, none of the rows was left out, and the
coverage says which slots of the rows to come are taken. -/
structure Follows (alignments : List Alignment) (rows : List Row) (grid : Grid) : Prop where
  placed : layout grid.rows = (uncovered rows).map (Placement.aligned alignments)
  numbered : grid.rows.length = rows.length
  covered : ∀ later slot, rows.length ≤ later →
    ((∃ placement ∈ written rows, placement.Takes later slot) ↔
      later < rows.length + grid.coverage.getD slot 0)

theorem follows_empty (alignments : List Alignment) : Follows alignments [] .empty where
  placed := rfl
  numbered := rfl
  covered := by
    intro later slot _
    simp [written, Grid.empty]

/-- Slots below the rows so far belong to a cell of the output exactly when they
belong to a written cell, as a placeholder reaches no further row. -/
theorem Follows.takes_layout_iff {alignments : List Alignment} {grid : Grid}
    (follows : Follows alignments rows grid) (fits : Fits columns rows) {later slot : Nat}
    (below : rows.length ≤ later) :
    (∃ placement ∈ layout grid.rows, placement.Takes later slot) ↔
      ∃ placement ∈ written rows, placement.Takes later slot := by
  simp only [follows.placed, List.mem_map, exists_exists_and_eq_and, Placement.takes_aligned]
  constructor
  · rintro ⟨placement, member, takes⟩
    exact ⟨placement, (List.mem_filter.mp member).1, takes⟩
  · rintro ⟨placement, member, takes⟩
    refine ⟨placement, List.mem_filter.mpr ⟨member, decide_eq_true ?_⟩, takes⟩
    rintro ⟨upper, upperMember, above, overlap⟩
    have placeholder := fits.placeholders upper upperMember placement member above overlap
    have inside := row_lt_length_of_mem_written member
    have ends := takes.2.1
    rw [Placement.rowEnd, Cell.rowCount_of_isPlaceholder placeholder] at ends
    omega

/-- A written cell of the next row is covered exactly when it stands over a
column with coverage. -/
theorem Follows.isCovered_iff {alignments : List Alignment} {grid : Grid}
    (follows : Follows alignments rows grid) {lower : Placement} (next : lower.row = rows.length) :
    IsCovered rows lower ↔
      ∃ slot, lower.column ≤ slot ∧ slot < lower.columnEnd ∧ grid.coverage.getD slot 0 ≠ 0 := by
  have covered := fun slot => (follows.covered rows.length slot (Nat.le_refl _)).trans
    (Nat.lt_add_right_iff_pos.trans Nat.pos_iff_ne_zero)
  constructor
  · rintro ⟨upper, member, above, overlap⟩
    obtain ⟨slot, after, before, takes⟩ := (Placement.overlaps_iff_of_row_lt above).mp overlap
    rw [next] at takes
    exact ⟨slot, after, before, (covered slot).mp ⟨upper, member, takes⟩⟩
  · rintro ⟨slot, after, before, holds⟩
    obtain ⟨upper, member, takes⟩ := (covered slot).mpr holds
    have above : upper.row < lower.row := next ▸ row_lt_length_of_mem_written member
    rw [← next] at takes
    exact ⟨upper, member, above,
      (Placement.overlaps_iff_of_row_lt above).mpr ⟨slot, after, before, takes⟩⟩

theorem Follows.rowFits {alignments : List Alignment} {grid : Grid}
    (follows : Follows alignments rows grid) (fits : Fits columns (rows ++ [row])) :
    RowFits rows.length 0 row.cells grid.coverage where
  spans := fits.spans row (List.mem_append_right _ List.mem_cons_self)
  placeholders := by
    intro placement member slot after before covered
    obtain ⟨upper, upperMember, above, overlap⟩ :=
      (follows.isCovered_iff (row_eq_of_mem_writtenRow member)).mpr ⟨slot, after, before, covered⟩
    have inFirst : upper ∈ written (rows ++ [row]) := by
      rw [written_concat]
      exact List.mem_append_left _ upperMember
    have inLast : placement ∈ written (rows ++ [row]) := by
      rw [written_concat]
      exact List.mem_append_right _ member
    exact fits.placeholders upper inFirst placement inLast above overlap

/-- The next row keeps its uncovered cells, where they are written. -/
theorem Follows.layoutRow_eq {alignments : List Alignment} {grid : Grid}
    (follows : Follows alignments rows grid) (fits : Fits columns (rows ++ [row])) :
    layoutRow (layout grid.rows) rows.length 0
        (placeCells grid.coverage alignments row.cells).1 =
      ((writtenRow rows.length 0 row.cells).filter fun placement =>
        ¬ IsCovered rows placement).map (Placement.aligned alignments) := by
  have taken : ∀ slot, (∃ placement ∈ layout grid.rows, placement.Takes rows.length slot) ↔
      grid.coverage.getD slot 0 ≠ 0 := by
    intro slot
    rw [follows.takes_layout_iff fits.init (Nat.le_refl _),
      follows.covered _ _ (Nat.le_refl _)]
    omega
  have fit := follows.rowFits fits
  refine layoutRow_placeCells alignments taken (fun placement member => ?_) fit (Nat.le_refl 0)
    fun slot _ before => absurd before (Nat.not_lt_zero slot)
  rw [decide_eq_true_iff, follows.isCovered_iff (row_eq_of_mem_writtenRow member)]
  push Not
  rfl

/-- What is known of the rows so far stays known with another row. -/
theorem Follows.addRow {alignments : List Alignment} {grid : Grid}
    (follows : Follows alignments rows grid) (fits : Fits columns (rows ++ [row]))
    (counted : Counted (rows ++ [row])) :
    Follows alignments (rows ++ [row]) (grid.addRow alignments row) := by
  have kept := follows.layoutRow_eq fits
  have notEmpty : (placeCells grid.coverage alignments row.cells).1 ≠ [] := by
    obtain ⟨placement, member, here⟩ := counted.keeps rows.length (by simp)
    intro none
    rw [none, layoutRow, eq_comm, List.map_eq_nil_iff] at kept
    rw [uncovered_concat, kept, List.append_nil] at member
    have := row_lt_length_of_mem_written (List.mem_filter.mp member).1
    omega
  have added : (grid.addRow alignments row).rows = grid.rows ++
      [⟨(placeCells grid.coverage alignments row.cells).1, row.background⟩] := by
    simp [Grid.addRow, notEmpty]
  have reaches : ∀ slot, 0 + row.columnCount ≤ slot → grid.coverage.getD slot 0 = 0 := by
    intro slot behind
    by_contra covered
    obtain ⟨upper, member, takes⟩ :=
      (follows.covered rows.length slot (Nat.le_refl _)).mpr (by omega)
    have inside : upper.columnEnd ≤ row.columnCount :=
      counted.reaches upper (by rw [written_concat]; exact List.mem_append_left _ member)
        (row, rows.length) (by simp [List.zipIdx_append]) (row_lt_length_of_mem_written member)
        takes.2.1
    have := takes.2.2.2
    omega
  refine ⟨?_, ?_, ?_⟩
  · rw [added, layout_concat, follows.placed, follows.numbered, uncovered_concat, List.map_append,
      ← follows.placed, kept]
  · rw [added, List.length_append, List.length_append, follows.numbered]
    rfl
  · intro later slot below
    rw [List.length_append, List.length_singleton] at below ⊢
    rw [written_concat]
    simp only [List.mem_append, or_and_right, exists_or]
    rw [follows.covered later slot (by omega)]
    exact coverage_placeCells alignments (follows.rowFits fits) reaches (by omega) (Nat.zero_le _)

theorem follows_addRows (alignments : List Alignment) (fits : Fits columns rows)
    (counted : Counted rows) :
    Follows alignments rows (rows.foldl (Grid.addRow alignments) .empty) := by
  induction rows using List.reverseRecOn with
  | nil => exact follows_empty alignments
  | append_singleton rows row inductionHypothesis =>
    rw [List.foldl_concat]
    exact (inductionHypothesis fits.init counted.init).addRow fits counted

end Run

/-! ## The whole table -/

/-- The written cells come in the order of their rows, and of their columns in
each row. -/
theorem written_pairwise (rows : List Row) :
    (written rows).Pairwise fun first second =>
      first.row < second.row ∨ first.row = second.row ∧ first.columnEnd ≤ second.column := by
  have inRow : ∀ (cells : List Cell) (row column : Nat),
      (writtenRow row column cells).Pairwise fun first second =>
        first.row < second.row ∨ first.row = second.row ∧ first.columnEnd ≤ second.column := by
    intro cells row
    induction cells with
    | nil => exact fun column => List.Pairwise.nil
    | cons cell others inductionHypothesis =>
      refine fun column => List.Pairwise.cons (fun later member => Or.inr ⟨?_, ?_⟩)
        (inductionHypothesis _)
      · exact (row_eq_of_mem_writtenRow member).symm
      · exact (columns_of_mem_writtenRow member).1
  induction rows using List.reverseRecOn with
  | nil => exact List.Pairwise.nil
  | append_singleton rows row inductionHypothesis =>
    rw [written_concat, List.pairwise_append]
    refine ⟨inductionHypothesis, inRow _ _ _, fun first firstMember second secondMember => ?_⟩
    left
    rw [row_eq_of_mem_writtenRow secondMember]
    exact row_lt_length_of_mem_written firstMember

/-- No two uncovered cells overlap. -/
theorem uncovered_pairwise (rows : List Row) :
    (uncovered rows).Pairwise fun first second => ¬ first.Overlaps second := by
  refine ((written_pairwise rows).filter _).imp_of_mem fun {first second} firstMember
    secondMember order overlap => ?_
  have uncovered := of_decide_eq_true (List.mem_filter.mp secondMember).2
  rcases order with above | ⟨-, before⟩
  · exact uncovered ⟨first, (List.mem_filter.mp firstMember).1, above, overlap⟩
  · have := overlap.2.2.2
    omega

/-- A written cell lies within its table. -/
theorem Fits.columnEnd_le {columns : Nat} {rows : List Row} (fits : Fits columns rows)
    {placement : Placement} (member : placement ∈ written rows) :
    placement.columnEnd ≤ columns := by
  obtain ⟨row, found, inRow⟩ := exists_row_of_mem_written member
  have inside := (columns_of_mem_writtenRow inRow).2
  have narrow := fits.narrow row (List.mem_of_getElem? found)
  rw [Row.columnCount] at narrow
  omega

/-- In rows under which the coverage is counted down, the output has every cell
that is written at no covered column, no other one, and each in the column where
it is written. No two of them overlap, and none leaves the table. -/
theorem layout_addRows {columns : Nat} {rows : List Row} (alignments : List Alignment)
    (fits : Fits columns rows) (counted : Counted rows) :
    layout (rows.foldl (Grid.addRow alignments) .empty).rows =
        (uncovered rows).map (Placement.aligned alignments) ∧
      (layout (rows.foldl (Grid.addRow alignments) .empty).rows).Pairwise
        (fun first second => ¬ first.Overlaps second) ∧
      ∀ placement ∈ layout (rows.foldl (Grid.addRow alignments) .empty).rows,
        placement.columnEnd ≤ columns := by
  rw [(follows_addRows alignments fits counted).placed]
  refine ⟨rfl, ?_, ?_⟩
  · exact List.pairwise_map.mpr (uncovered_pairwise rows)
  · intro placement member
    obtain ⟨source, sourceMember, rfl⟩ := List.mem_map.mp member
    have inside : source.columnEnd ≤ columns :=
      fits.columnEnd_le (List.mem_filter.mp sourceMember).1
    exact inside

/-- The cells of a table that is read from its body stand where they are
written, without any condition on what their spans are. -/
theorem layout_readGrid {columns : Nat} (colors : ColorTable) (alignments : List Alignment)
    (body : Text) (narrow : ∀ row ∈ readRows colors body, row.columnCount ≤ columns)
    (placeholders : ∀ upper ∈ written (readRows colors body),
      ∀ lower ∈ written (readRows colors body),
        upper.row < lower.row → upper.Overlaps lower → lower.cell.isPlaceholder)
    (counted : Counted (readRows colors body)) :
    layout (readGrid colors alignments body) =
      (uncovered (readRows colors body)).map (Placement.aligned alignments) := by
  have fits : Fits columns (readRows colors body) :=
    ⟨fun _ rowMember _ cellMember => spansFit_of_mem_readRows rowMember cellMember, narrow,
      placeholders⟩
  exact (follows_addRows alignments fits counted).placed

/-- A cell with a text, over some columns and rows. -/
def spanningCell (content : Text) (columnSpan rowSpan : Nat) : Cell :=
  ⟨content, columnSpan, rowSpan, none, none⟩

/-- A row of cells without a colour. -/
def plainRow (cells : List Cell) : Row :=
  ⟨cells, none⟩

/-- A cell over two columns and three rows, with empty cells below it in rows
that have other cells before and behind them. -/
def blockRows : List Row :=
  [plainRow [spanningCell ['a'] 1 2, spanningCell ['b'] 2 3, spanningCell ['c'] 1 1],
    plainRow [.empty, .empty, .empty, spanningCell ['d'] 1 1],
    plainRow [spanningCell ['e'] 1 1, .empty, .empty, spanningCell ['f'] 1 1]]

/-- The cells around a block stand where they are written. -/
theorem layout_blockRows :
    layout (blockRows.foldl (Grid.addRow [.left]) .empty).rows =
      (uncovered blockRows).map (Placement.aligned [.left]) :=
  (layout_addRows [.left] (⟨by decide, by decide, by decide⟩ : Fits 4 blockRows)
    ⟨by decide, by decide⟩).1

/-- A row that ends before the column of a cell that spans it, and a row below
it that reaches that column. -/
def shortRows : List Row :=
  [plainRow [spanningCell ['x'] 1 1, spanningCell ['A'] 1 2, spanningCell ['c'] 1 1],
    plainRow [spanningCell ['y'] 1 1],
    plainRow [spanningCell ['z'] 1 1, .empty, spanningCell ['w'] 1 1]]

/-- Below a row that is too short the coverage is not counted down: an empty
cell that nothing covers is left out, and the cell behind it moves to its
column. -/
theorem layout_shortRows :
    Fits 3 shortRows ∧ ⟨2, 1, .empty⟩ ∈ uncovered shortRows ∧
      ⟨2, 2, spanningCell ['w'] 1 1⟩ ∈ uncovered shortRows ∧
      ⟨2, 1, spanningCell ['w'] 1 1⟩ ∈
        layout (shortRows.foldl (Grid.addRow []) .empty).rows ∧
      layout (shortRows.foldl (Grid.addRow []) .empty).rows ≠
        (uncovered shortRows).map (Placement.aligned []) :=
  ⟨⟨by decide, by decide, by decide⟩, by decide, by decide, by decide, by decide⟩

/-- Two cells over two rows, and below them a row that is covered as a whole. -/
def coveredRows : List Row :=
  [plainRow [spanningCell ['A'] 1 2, spanningCell ['B'] 1 2],
    plainRow [.empty, .empty],
    plainRow [spanningCell ['C'] 1 1, spanningCell ['D'] 1 1]]

/-- A row that is covered as a whole is left out, and the cells above it reach
into the row below it: that row leaves the table. -/
theorem layout_coveredRows :
    Fits 2 coveredRows ∧
      layout (coveredRows.foldl (Grid.addRow []) .empty).rows =
        [⟨0, 0, spanningCell ['A'] 1 2⟩, ⟨0, 1, spanningCell ['B'] 1 2⟩,
          ⟨1, 2, spanningCell ['C'] 1 1⟩, ⟨1, 3, spanningCell ['D'] 1 1⟩] :=
  ⟨⟨by decide, by decide, by decide⟩, by decide⟩

end LatexMarkdown.Table
