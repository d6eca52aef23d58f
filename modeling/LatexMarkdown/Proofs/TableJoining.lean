import LatexMarkdown.Proofs.Locality
import LatexMarkdown.Proofs.Paragraphs
import LatexMarkdown.Proofs.PlainTable
import LatexMarkdown.Proofs.Unescaped

/-!
# Splitting what was joined

The scan for rows and the scan for cells of a table carry the same state: how
deep they are in braces and environments, and whether a backslash escapes the
next character. A piece that leaves them outside everything does not show in how
the text behind the separator is read, so pieces that are joined come back.
-/

namespace LatexMarkdown.Table

open Scan (escapesAfter escapesAfter_cons escapesNext escapesNext_of_ne)

/-! ## The state of the scan -/

/-- How deep the scan of a table is behind a text. -/
def depthBehind : Depth → (escaped : Bool) → Text → Depth
  | depth, _, [] => depth
  | depth, true, _ :: rest => depthBehind depth false rest
  | depth, false, c :: rest =>
    if c = '\\' then depthBehind (depth.afterCommand (c :: rest)) true rest
    else depthBehind (depth.afterBrace c) false rest

/-- From a state on, a text leaves the scan outside all braces and environments, with nothing
escaped behind it. -/
structure Closes (depth : Depth) (escaped : Bool) (text : Text) : Prop where
  depth_eq : depthBehind depth escaped text = .top
  unescaped : escapesAfter escaped text = false

instance (depth : Depth) (escaped : Bool) (text : Text) :
    Decidable (Closes depth escaped text) :=
  decidable_of_iff (depthBehind depth escaped text = .top ∧ escapesAfter escaped text = false)
    ⟨fun ⟨depth, unescaped⟩ => ⟨depth, unescaped⟩, fun closes => ⟨closes.1, closes.2⟩⟩

namespace Closes

variable {depth : Depth} {c : Char} {rest : Text}

/-- Nothing is open at the end of a text that closes everything. -/
theorem nil {escaped : Bool} (closes : Closes depth escaped []) :
    depth = .top ∧ escaped = false :=
  ⟨closes.depth_eq, closes.unescaped⟩

theorem behind_escaped (closes : Closes depth true (c :: rest)) : Closes depth false rest :=
  ⟨closes.depth_eq, by simpa [escapesNext] using closes.unescaped⟩

theorem behind_backslash (closes : Closes depth false ('\\' :: rest)) :
    Closes (depth.afterCommand ('\\' :: rest)) true rest :=
  ⟨closes.depth_eq, closes.unescaped⟩

theorem behind (closes : Closes depth false (c :: rest)) (different : c ≠ '\\') :
    Closes (depth.afterBrace c) false rest where
  depth_eq := by simpa [depthBehind, different] using closes.depth_eq
  unescaped := by simpa [escapesNext_of_ne different] using closes.unescaped

end Closes

/-- A separator does not continue the marker of an environment before it. -/
theorem afterCommand_append (depth : Depth) {separator : Char}
    (foreign : separator ∉ "begin".toList ++ ['{'] ∧ separator ∉ "end".toList ++ ['{'])
    (front rest : Text) :
    depth.afterCommand ('\\' :: (front ++ separator :: rest)) =
      depth.afterCommand ('\\' :: front) := by
  have same {word : Text} (absent : separator ∉ word) :
      Text.startsWith ('\\' :: word) ('\\' :: (front ++ separator :: rest)) =
        Text.startsWith ('\\' :: word) ('\\' :: front) := by
    rw [Bool.eq_iff_iff, Text.startsWith_iff, Text.startsWith_iff, List.cons_prefix_cons,
      List.cons_prefix_cons]
    exact and_congr_right fun _ => ⟨Text.prefix_of_prefix_append_cons absent,
      fun start => start.trans (List.prefix_append _ _)⟩
  have opening : Text.startsWith ("\\begin".toList ++ ['{']) ('\\' :: (front ++ separator :: rest)) =
      Text.startsWith ("\\begin".toList ++ ['{']) ('\\' :: front) := same foreign.1
  have closing : Text.startsWith ("\\end".toList ++ ['{']) ('\\' :: (front ++ separator :: rest)) =
      Text.startsWith ("\\end".toList ++ ['{']) ('\\' :: front) := same foreign.2
  rw [Depth.afterCommand, opening, closing, Depth.afterCommand]

/-! ## Cells -/

/-- A character stands in front of a single piece. -/
theorem keepInFirst_eq_singleton {c : Char} {pieces : List Text} {piece : Text}
    (nonempty : pieces ≠ []) (single : Text.keepInFirst c pieces = [c :: piece]) :
    pieces = [piece] := by
  obtain ⟨first, others, rfl⟩ := List.exists_cons_of_ne_nil nonempty
  simpa [Text.keepInFirst] using single

/-- A cell that is whole and closes everything ends at the separator behind it. -/
theorem cellsFrom_append {depth : Depth} {escaped : Bool} {cell : Text}
    (whole : cellsFrom depth escaped cell = [cell]) (closes : Closes depth escaped cell)
    (rest : Text) :
    cellsFrom depth escaped (cell ++ '&' :: rest) = cell :: splitCells rest := by
  induction cell generalizing depth escaped with
  | nil =>
    obtain ⟨rfl, rfl⟩ := closes.nil
    rfl
  | cons c cell inductionHypothesis =>
    have later {inner : Depth} {next : Bool}
        (single : Text.keepInFirst c (cellsFrom inner next cell) = [c :: cell])
        (behind : Closes inner next cell) :
        Text.keepInFirst c (cellsFrom inner next (cell ++ '&' :: rest)) =
          (c :: cell) :: splitCells rest := by
      rw [inductionHypothesis (keepInFirst_eq_singleton (cellsFrom_ne_nil _ _ _) single) behind]
      rfl
    cases escaped with
    | true => exact later whole closes.behind_escaped
    | false =>
      rw [cellsFrom] at whole
      rw [List.cons_append, cellsFrom]
      by_cases backslash : c = '\\'
      · subst backslash
        rw [if_pos rfl] at whole ⊢
        rw [afterCommand_append depth (by decide)]
        exact later whole closes.behind_backslash
      · rw [if_neg backslash] at whole ⊢
        split at whole
        · simp at whole
        next inside =>
          rw [if_neg inside]
          exact later whole (closes.behind backslash)

/-! ## Rows -/

/-- What is no row break starts neither with two backslashes nor with the command. -/
theorem afterRowBreak?_eq_none_iff {text : Text} :
    afterRowBreak? text = none ↔
      ¬ ['\\', '\\'] <+: text ∧ ¬ '\\' :: "tabularnewline".toList <+: text := by
  have spelled : "\\\\".toList = ['\\', '\\'] := rfl
  have command : "\\tabularnewline".toList = '\\' :: "tabularnewline".toList := rfl
  rw [← Text.dropFront?_eq_none_iff, ← Text.dropFront?_eq_none_iff, afterRowBreak?, spelled,
    command]
  cases Text.dropFront? ['\\', '\\'] text with
  | none => simp
  | some after =>
    simp only [reduceCtorEq, false_and, iff_false]
    split <;> simp

/-- Whether a text behind a row break would be read as a star or as an option of it. -/
def ContinuesBreak (text : Text) : Prop :=
  text.head? = some '*' ∨ (Text.skipGap text).head? = some '['

instance (text : Text) : Decidable (ContinuesBreak text) :=
  inferInstanceAs (Decidable (_ ∨ _))

/-- A further row break does not make a row look like a star or an option. -/
theorem not_continuesBreak_append {row : Text} (separate : ¬ ContinuesBreak row) (rest : Text) :
    ¬ ContinuesBreak (row ++ '\\' :: rest) := by
  rw [ContinuesBreak, not_or] at separate ⊢
  constructor
  · cases row with
    | nil => simp
    | cons c others => exact separate.1
  · by_cases blank : Text.skipGap row = []
    · have gaps : ∀ c ∈ row, Text.isGap c = true := List.dropWhile_eq_nil_iff.mp blank
      rw [Text.skipGap, List.dropWhile_append_of_pos gaps, List.dropWhile_cons_of_neg (by decide)]
      simp
    · rw [Scan.skipGap_append blank, List.head?_append_of_ne_nil _ blank]
      exact separate.2

/-- Two backslashes end a row, and nothing behind them belongs to the break where neither a
star nor an option follows. -/
theorem afterRowBreak?_break {rest : Text} (separate : ¬ ContinuesBreak rest) :
    afterRowBreak? ('\\' :: '\\' :: rest) = some rest := by
  obtain ⟨unstarred, noOption⟩ := not_or.mp separate
  have star : (Text.dropFront? ['*'] rest).getD rest = rest := by
    rw [Text.dropFront?_eq_none_iff.mpr]
    · rfl
    · rintro ⟨after, rfl⟩
      exact unstarred rfl
  have unread : Scan.readBracketed (Text.skipGap rest) = none := by
    cases read : Scan.readBracketed (Text.skipGap rest) with
    | none => rfl
    | some pair =>
      rw [Scan.readBracketed_eq_append read] at noOption
      exact absurd rfl noOption
  have found : Text.dropFront? "\\\\".toList ('\\' :: '\\' :: rest) = some rest := rfl
  simp only [afterRowBreak?, found, star, unread]

/-- A row break behind a row does not make an earlier one. -/
theorem afterRowBreak?_append {row : Text} (unbroken : afterRowBreak? ('\\' :: row) = none)
    (nonempty : row ≠ []) (rest : Text) :
    afterRowBreak? ('\\' :: (row ++ '\\' :: rest)) = none := by
  rw [afterRowBreak?_eq_none_iff] at unbroken ⊢
  obtain ⟨c, others, rfl⟩ := List.exists_cons_of_ne_nil nonempty
  refine ⟨fun start => unbroken.1 ?_, fun start => unbroken.2 ?_⟩
  · obtain ⟨-, inner⟩ := List.cons_prefix_cons.mp start
    obtain ⟨rfl, -⟩ := List.cons_prefix_cons.mp inner
    exact ⟨others, rfl⟩
  · exact List.cons_prefix_cons.mpr ⟨rfl, Text.prefix_of_prefix_append_cons (by decide)
      (List.cons_prefix_cons.mp start).2⟩

theorem rowsFrom_ne_nil (depth : Depth) (escaped : Bool) (covered : Nat) (body : Text) :
    rowsFrom depth escaped covered body ≠ [] := by
  have kept (c : Char) (pieces : List Text) : Text.keepInFirst c pieces ≠ [] := by
    cases pieces <;> exact List.cons_ne_nil _ _
  fun_induction rowsFrom depth escaped covered body with
  | case1 => exact List.cons_ne_nil _ _
  | case2 _ _ _ _ _ inductionHypothesis => exact inductionHypothesis
  | case3 => exact kept _ _
  | case4 => exact List.cons_ne_nil _ _
  | case5 => exact kept _ _
  | case6 => exact kept _ _

/-- A row that is whole and closes everything ends at the row break behind it. -/
theorem rowsFrom_append {depth : Depth} {escaped : Bool} {row rest : Text}
    (whole : rowsFrom depth escaped 0 row = [row]) (closes : Closes depth escaped row)
    (separate : ¬ ContinuesBreak rest) :
    rowsFrom depth escaped 0 (row ++ '\\' :: '\\' :: rest) = row :: splitRows rest := by
  induction row generalizing depth escaped with
  | nil =>
    obtain ⟨rfl, rfl⟩ := closes.nil
    have broken := afterRowBreak?_break separate
    have passed : ('\\' :: rest).length - rest.length = 1 := by simp
    simp only [List.nil_append, rowsFrom, if_pos, Depth.top, Depth.isTop, decide_true,
      Bool.and_self, broken, passed, splitRows]
  | cons c row inductionHypothesis =>
    have later {inner : Depth} {next : Bool}
        (single : Text.keepInFirst c (rowsFrom inner next 0 row) = [c :: row])
        (behind : Closes inner next row) :
        Text.keepInFirst c (rowsFrom inner next 0 (row ++ '\\' :: '\\' :: rest)) =
          (c :: row) :: splitRows rest := by
      rw [inductionHypothesis (keepInFirst_eq_singleton (rowsFrom_ne_nil _ _ _ _) single) behind]
      rfl
    cases escaped with
    | true => exact later whole closes.behind_escaped
    | false =>
      rw [rowsFrom] at whole
      rw [List.cons_append, rowsFrom]
      by_cases backslash : c = '\\'
      · subst backslash
        rw [if_pos rfl] at whole ⊢
        split at whole
        · simp at whole
        next unbroken =>
          have nonempty : row ≠ [] := by
            rintro rfl
            exact Bool.noConfusion closes.unescaped
          have still : (if depth.isTop then afterRowBreak? ('\\' :: (row ++ '\\' :: '\\' :: rest))
              else none) = none := by
            split
            next top =>
              rw [if_pos top] at unbroken
              exact afterRowBreak?_append unbroken nonempty _
            · rfl
          rw [still, afterCommand_append depth (by decide)]
          exact later whole closes.behind_backslash
      · rw [if_neg backslash] at whole ⊢
        exact later whole (closes.behind backslash)

/-! ## Joined pieces -/

/-- Cells that are whole and close everything come back from the joined row. -/
theorem splitCells_joinWith {cells : List Text} (nonempty : cells ≠ [])
    (whole : ∀ cell ∈ cells, splitCells cell = [cell] ∧ Closes .top false cell) :
    splitCells (Text.joinWith ['&'] cells) = cells := by
  induction cells with
  | nil => exact absurd rfl nonempty
  | cons cell others inductionHypothesis =>
    obtain ⟨⟨single, closes⟩, later⟩ := List.forall_mem_cons.mp whole
    by_cases last : others = []
    · subst last
      exact single
    · rw [Text.joinWith_cons _ _ last, List.singleton_append, splitCells,
        cellsFrom_append single closes, inductionHypothesis last later]

/-- Joined rows do not look like a star or an option if the first of them does not. -/
theorem not_continuesBreak_joinWith {row : Text} (separate : ¬ ContinuesBreak row)
    (others : List Text) :
    ¬ ContinuesBreak (Text.joinWith "\\\\".toList (row :: others)) := by
  cases others with
  | nil => exact separate
  | cons next later =>
    rw [Text.joinWith_cons _ _ (List.cons_ne_nil _ _)]
    exact not_continuesBreak_append separate _

/-- Rows that are whole, close everything and cannot be taken for a part of the row break
before them come back from the joined body. -/
theorem splitRows_joinWith {rows : List Text} (nonempty : rows ≠ [])
    (whole : ∀ row ∈ rows, splitRows row = [row] ∧ Closes .top false row)
    (separate : ∀ row ∈ rows.tail, ¬ ContinuesBreak row) :
    splitRows (Text.joinWith "\\\\".toList rows) = rows := by
  induction rows with
  | nil => exact absurd rfl nonempty
  | cons row others inductionHypothesis =>
    obtain ⟨⟨single, closes⟩, later⟩ := List.forall_mem_cons.mp whole
    cases others with
    | nil => exact single
    | cons next further =>
      obtain ⟨apart, behind⟩ := List.forall_mem_cons.mp separate
      rw [Text.joinWith_cons _ _ (List.cons_ne_nil _ _), splitRows]
      have split := rowsFrom_append single closes (not_continuesBreak_joinWith apart further)
      exact split.trans (congrArg _ (inductionHypothesis (List.cons_ne_nil _ _) later behind))

/-- Joining the cells of a row gives the row back; splitting joined cells, and splitting
joined rows, gives the pieces back. -/
theorem split_joined_pieces :
    (∀ row : Text, Text.joinWith ['&'] (splitCells row) = row) ∧
      (∀ cells : List Text, cells ≠ [] →
        (∀ cell ∈ cells, splitCells cell = [cell] ∧ Closes .top false cell) →
        splitCells (Text.joinWith ['&'] cells) = cells) ∧
      ∀ rows : List Text, rows ≠ [] →
        (∀ row ∈ rows, splitRows row = [row] ∧ Closes .top false row) →
        (∀ row ∈ rows.tail, ¬ ContinuesBreak row) →
        splitRows (Text.joinWith "\\\\".toList rows) = rows :=
  ⟨joinWith_splitCells, fun _ => splitCells_joinWith, fun _ => splitRows_joinWith⟩

/-- Cells with an escaped separator, a group with a separator and an escaped foreign letter. -/
def markedCells : List Text :=
  ["a\\&b".toList, '{' :: "c&d".toList ++ ['}'], "\\é".toList, []]

/-- Rows with an environment that has rows of its own, and with braces around a row break. -/
def nestedRows : List Text :=
  [Scan.beginMarker "tabular".toList ++ "a&b\\\\*c".toList ++ Scan.endMarker "tabular".toList,
    " x & y".toList, '{' :: "\\\\[1em]".toList ++ ['}'], []]

theorem split_joined_pieces_nested :
    ((∀ cell ∈ markedCells, splitCells cell = [cell] ∧ Closes .top false cell) ∧
      splitCells (Text.joinWith ['&'] markedCells) = markedCells) ∧
    ((∀ row ∈ nestedRows, splitRows row = [row] ∧ Closes .top false row) ∧
      (∀ row ∈ nestedRows.tail, ¬ ContinuesBreak row) ∧
      splitRows (Text.joinWith "\\\\".toList nestedRows) = nestedRows) := by
  have cells : ∀ cell ∈ markedCells, splitCells cell = [cell] ∧ Closes .top false cell := by
    decide
  have rows : ∀ row ∈ nestedRows, splitRows row = [row] ∧ Closes .top false row := by decide
  have separate : ∀ row ∈ nestedRows.tail, ¬ ContinuesBreak row := by decide
  exact ⟨⟨cells, split_joined_pieces.2.1 _ (by decide) cells⟩, rows, separate,
    split_joined_pieces.2.2 _ (by decide) rows separate⟩

end LatexMarkdown.Table
