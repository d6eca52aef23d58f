import LatexMarkdown.Proofs.SingleCell

/-!
# Tables of plain text

A text without commands and formulas is one row of a table. Its separators divide
it into cells, and in every cell punctuation is replaced. Counting what this adds
and takes shows that the table is the single cell with the text only if nothing
divides the text and nothing in it is replaced.
-/

namespace LatexMarkdown

open Scan

/-! ## Replaced and trimmed characters -/

/-- Every replacement takes the characters of the pattern and puts those of the
replacement, and there is one if the pattern occurs. -/
theorem Scan.exists_countP_replaceAll (counted : Char → Bool) {found : Text} (filled : found ≠ [])
    (replacement text : Text) :
    ∃ times, (found <:+: text → 0 < times) ∧
      (replaceAll found replacement text).countP counted + times * found.countP counted =
        text.countP counted + times * replacement.countP counted := by
  induction length : text.length using Nat.strong_induction_on generalizing text with
  | _ _ inductionHypothesis =>
    subst length
    cases text with
    | nil =>
      refine ⟨0, fun occurs => absurd (List.eq_nil_of_infix_nil occurs) filled, ?_⟩
      rw [Nat.zero_mul, Nat.zero_mul]
      rfl
    | cons c rest =>
      cases start : Text.dropFront? found (c :: rest) with
      | none =>
        obtain ⟨times, occurring, balance⟩ := inductionHypothesis rest.length (by simp) rest rfl
        refine ⟨times, fun occurs => ?_, ?_⟩
        · exact occurring ((List.infix_cons_iff.mp occurs).resolve_left
            (Text.dropFront?_eq_none_iff.mp start))
        · rw [replaceAll_cons start, List.countP_cons, List.countP_cons]
          omega
      | some after =>
        have whole : c :: rest = found ++ after := Text.dropFront?_eq_some_iff.mp start
        have shorter : after.length < (c :: rest).length := by
          have width := List.length_pos_iff.mpr filled
          rw [whole, List.length_append]
          omega
        obtain ⟨times, -, balance⟩ := inductionHypothesis after.length shorter after rfl
        refine ⟨times + 1, fun _ => Nat.succ_pos times, ?_⟩
        rw [whole, replaceAll_append filled, List.countP_append, List.countP_append,
          Nat.succ_mul, Nat.succ_mul]
        omega

/-- A character of neither the pattern nor the replacement stays as often as it is. -/
theorem Scan.count_replaceAll {c : Char} {found replacement : Text} (filled : found ≠ [])
    (foreign : c ∉ found ∧ c ∉ replacement) (text : Text) :
    (replaceAll found replacement text).count c = text.count c := by
  obtain ⟨times, -, balance⟩ := exists_countP_replaceAll (· == c) filled replacement text
  simpa only [← List.count_eq_countP, List.count_eq_zero.mpr foreign.1,
    List.count_eq_zero.mpr foreign.2, Nat.mul_zero, Nat.add_zero] using balance

/-- Trimming takes only blanks. -/
theorem Text.countP_trim {counted : Char → Bool}
    (visible : ∀ c, counted c = true → isBlank c = false) (text : Text) :
    (trim text).countP counted = text.countP counted := by
  have dropped (text : Text) : (text.dropWhile isBlank).countP counted = text.countP counted := by
    have none : (text.takeWhile isBlank).countP counted = 0 := by
      refine List.countP_eq_zero.mpr fun c member holds => ?_
      have blank := List.mem_takeWhile_imp member
      rw [visible c holds] at blank
      exact Bool.false_ne_true blank
    conv_rhs => rw [← List.takeWhile_append_dropWhile (p := isBlank) (l := text)]
    rw [List.countP_append, none, Nat.zero_add]
  rw [trim, trimEnd, dropTrailing_eq_rdropWhile, List.rdropWhile, List.countP_reverse, dropped,
    List.countP_reverse, trimStart, dropped]

namespace Symbol

/-- Replace some patterns, one after another. -/
def replaceEach (entries : List (Text × Text)) (text : Text) : Text :=
  entries.foldl (fun text (pattern, replacement) => replaceAll pattern replacement text) text

theorem replaceEach_cons (pattern replacement : Text) (entries : List (Text × Text)) (text : Text) :
    replaceEach ((pattern, replacement) :: entries) text =
      replaceEach entries (replaceAll pattern replacement text) :=
  rfl

/-- The signs of which every punctuation has one, and no replacement has any. -/
def isSign (c : Char) : Bool :=
  "`'-~".toList.contains c

/-- Patterns with signs and replacements without them take signs, and where they
take none no pattern occurs. -/
theorem countP_replaceEach {entries : List (Text × Text)}
    (signed : ∀ entry ∈ entries, 0 < entry.1.countP isSign ∧ entry.2.countP isSign = 0)
    (text : Text) :
    (replaceEach entries text).countP isSign ≤ text.countP isSign ∧
      (text.countP isSign ≤ (replaceEach entries text).countP isSign →
        ∀ entry ∈ entries, ¬ entry.1 <:+: text) := by
  induction entries generalizing text with
  | nil => exact ⟨Nat.le_refl _, fun _ _ member => absurd member List.not_mem_nil⟩
  | cons entry others inductionHypothesis =>
    obtain ⟨pattern, replacement⟩ := entry
    rw [List.forall_mem_cons] at signed
    obtain ⟨⟨present, none⟩, later⟩ := signed
    have filled : pattern ≠ [] := by
      rintro rfl
      exact absurd present (Nat.lt_irrefl 0)
    obtain ⟨times, occurring, balance⟩ :=
      exists_countP_replaceAll isSign filled replacement text
    rw [none, Nat.mul_zero] at balance
    obtain ⟨fewer, absent⟩ := inductionHypothesis later (replaceAll pattern replacement text)
    rw [replaceEach_cons]
    refine ⟨by omega, fun kept => ?_⟩
    have here : ¬ pattern <:+: text := by
      intro occurs
      have taken : 0 < times * pattern.countP isSign := Nat.mul_pos (occurring occurs) present
      omega
    rw [replaceAll_of_absent here] at absent kept
    exact List.forall_mem_cons.mpr ⟨here, absent kept⟩

/-- A text that keeps its signs has no punctuation. -/
theorem unpunctuated_of_countP_le {text : Text}
    (kept : text.countP isSign ≤ (replacePunctuation text).countP isSign) :
    ∀ entry ∈ punctuation, ¬ entry.1 <:+: text := by
  have signed : ∀ entry ∈ punctuation,
      0 < entry.1.countP isSign ∧ entry.2.countP isSign = 0 := by decide
  exact (countP_replaceEach signed text).2 kept

/-- A character of no punctuation and no replacement stays as often as it is. -/
theorem count_replacePunctuation {c : Char}
    (foreign : ∀ entry ∈ punctuation, c ∉ entry.1 ∧ c ∉ entry.2) (text : Text) :
    (replacePunctuation text).count c = text.count c := by
  have filled : ∀ entry ∈ punctuation, entry.1 ≠ [] := by decide
  refine replacePunctuation_induction (motive := fun other => other.count c = text.count c) rfl
    fun entry listed other same => ?_
  exact (count_replaceAll (filled entry listed) (foreign entry listed) other).trans same

/-- A character of no punctuation and no replacement does not come in. -/
theorem not_mem_replacePunctuation {c : Char}
    (foreign : ∀ entry ∈ punctuation, c ∉ entry.1 ∧ c ∉ entry.2) {text : Text} (absent : c ∉ text) :
    c ∉ replacePunctuation text := by
  rw [← List.count_eq_zero, count_replacePunctuation foreign, List.count_eq_zero]
  exact absent

/-- Replacing punctuation neither makes nor breaks a token. -/
theorem tokenFree_replacePunctuation (text : Text) :
    Fragment.TokenFree (replacePunctuation text) ↔ Fragment.TokenFree text := by
  have separate : ∀ entry ∈ punctuation, (entry.1 ≠ [] ∧ entry.2 ≠ []) ∧
      Fragment.Separating entry.1 ∧ Fragment.Separating entry.2 := by decide
  refine replacePunctuation_induction (motive := fun other => Fragment.TokenFree other ↔
    Fragment.TokenFree text) Iff.rfl fun entry listed other same => ?_
  obtain ⟨filled, separating⟩ := separate entry listed
  exact (Fragment.tokenFree_replaceAll filled separating other).trans same

end Symbol

/-! ## The cells of a row -/

/-- A piece is a part of the joined pieces. -/
theorem Text.infix_joinWith_of_mem (separator : Text) {piece : Text} {pieces : List Text}
    (member : piece ∈ pieces) : piece <:+: joinWith separator pieces := by
  induction pieces with
  | nil => exact absurd member List.not_mem_nil
  | cons first others inductionHypothesis =>
    cases others with
    | nil =>
      rw [List.mem_singleton.mp member]
      exact List.infix_refl first
    | cons next others =>
      rw [joinWith, List.append_assoc]
      rcases List.mem_cons.mp member with rfl | later
      · exact (List.prefix_append _ _).isInfix
      · exact (inductionHypothesis later).trans
          ((List.suffix_append _ _).trans (List.suffix_append _ _)).isInfix

namespace Table

theorem cellsFrom_ne_nil (depth : Depth) (escaped : Bool) (row : Text) :
    cellsFrom depth escaped row ≠ [] := by
  have kept (c : Char) (pieces : List Text) : Text.keepInFirst c pieces ≠ [] := by
    cases pieces <;> exact List.cons_ne_nil _ _
  cases row with
  | nil => cases escaped <;> exact List.cons_ne_nil _ _
  | cons c rest =>
    cases escaped with
    | true => exact kept c _
    | false =>
      rw [cellsFrom]
      split
      · exact kept c _
      split
      · exact List.cons_ne_nil _ _
      · exact kept c _

theorem exists_splitCells (row : Text) : ∃ first others, splitCells row = first :: others :=
  List.exists_cons_of_ne_nil (cellsFrom_ne_nil .top false row)

/-- The cells of a row, joined by separators, are the row. -/
theorem joinWith_splitCells (row : Text) : Text.joinWith ['&'] (splitCells row) = row := by
  have general (depth : Depth) (escaped : Bool) :
      Text.joinWith ['&'] (cellsFrom depth escaped row) = row := by
    induction row generalizing depth escaped with
    | nil => cases escaped <;> rfl
    | cons c rest inductionHypothesis =>
      cases escaped with
      | true => rw [cellsFrom, Text.joinWith_keepInFirst, inductionHypothesis]
      | false =>
        rw [cellsFrom]
        split
        · rw [Text.joinWith_keepInFirst, inductionHypothesis]
        split
        next separates =>
          rw [Bool.and_eq_true, decide_eq_true_eq] at separates
          obtain ⟨first, others, split⟩ :=
            List.exists_cons_of_ne_nil (cellsFrom_ne_nil depth false rest)
          have joined := inductionHypothesis depth false
          rw [split] at joined ⊢
          rw [Text.joinWith, joined, separates.1]
          rfl
        · rw [Text.joinWith_keepInFirst, inductionHypothesis]
  exact general .top false

/-- Outside braces and environments every separator divides a row. -/
theorem length_splitCells {row : Text} (plain : '\\' ∉ row) (unbraced : '{' ∉ row ∧ '}' ∉ row) :
    (splitCells row).length = row.count '&' + 1 := by
  rw [splitCells]
  induction row with
  | nil => rfl
  | cons c rest inductionHypothesis =>
    rw [List.mem_cons, not_or] at plain
    rw [List.mem_cons, not_or, List.mem_cons, not_or] at unbraced
    obtain ⟨⟨opening, unopened⟩, closing, unclosed⟩ := unbraced
    have level : Depth.top.afterBrace c = .top := by
      rw [Depth.afterBrace, if_neg (Ne.symm opening), if_neg (Ne.symm closing)]
    have later := inductionHypothesis plain.2 ⟨unopened, unclosed⟩
    rw [cellsFrom, if_neg (Ne.symm plain.1), level, List.count_cons]
    split
    next separates =>
      rw [Bool.and_eq_true, decide_eq_true_eq] at separates
      rw [List.length_cons, later, separates.1]
      rfl
    next joined =>
      have different : c ≠ '&' := by
        rintro rfl
        exact joined rfl
      obtain ⟨first, others, split⟩ :=
        List.exists_cons_of_ne_nil (cellsFrom_ne_nil .top false rest)
      rw [split] at later ⊢
      rw [if_neg (by simpa using different)]
      exact later

/-- A cell is a part of its row. -/
theorem infix_of_mem_splitCells {row piece : Text} (member : piece ∈ splitCells row) :
    piece <:+: row := by
  have part := Text.infix_joinWith_of_mem ['&'] member
  rwa [joinWith_splitCells] at part

/-! ## The table of a plain text -/

/-- A text with neither commands nor dollars nor tokens. -/
structure IsPlain (text : Text) : Prop where
  commandless : '\\' ∉ text
  dollarless : '$' ∉ text
  tokenless : Fragment.TokenFree text

theorem IsPlain.of_infix {text part : Text} (plain : IsPlain text) (inside : part <:+: text) :
    IsPlain part where
  commandless := fun member => plain.commandless (inside.subset member)
  dollarless := fun member => plain.dollarless (inside.subset member)
  tokenless := plain.tokenless.of_infix inside

/-- A text that nothing divides and in which nothing is replaced. -/
structure Survives (text : Text) : Prop where
  undivided : splitCells text = [text]
  unpunctuated : ∀ entry ∈ Symbol.punctuation, ¬ entry.1 <:+: text

/-- What a cell shows of a plain text. -/
def shown (content : Text) : Text :=
  Text.trim (Symbol.replacePunctuation content)

/-- In a plain text punctuation is replaced. -/
theorem IsPlain.renderCell?_eq {content : Text} (plain : IsPlain content) (colors : ColorTable)
    (table? : Text → Text → Option Text) :
    renderCell? colors table? content = some (shown content) := by
  have unopened : ¬ Document.Inset.environmentOpening <:+: content := by
    have sign : '\\' ∈ Document.Inset.environmentOpening := by decide
    exact fun occurs => plain.commandless (occurs.subset sign)
  have formulaless : ¬ "\\(".toList <:+: content := by
    have sign : '\\' ∈ "\\(".toList := by decide
    exact fun occurs => plain.commandless (occurs.subset sign)
  have commandless : '\\' ∉ Symbol.replacePunctuation content :=
    Symbol.not_mem_replacePunctuation (by decide) plain.commandless
  have tokenless : Fragment.TokenFree (shown content) := by
    rw [shown, Fragment.tokenFree_trim, Symbol.tokenFree_replacePunctuation]
    exact plain.tokenless
  rw [renderCell?_of_unopened unopened, storeFormulas_of_absent plain.dollarless formulaless,
    finishCell, renderStyles_of_plain plain.commandless,
    unescapeSpecials_of_plain plain.commandless,
    Symbol.normalize_eq_replacePunctuation (.of_plain plain.commandless) (.of_plain commandless),
    ← shown,
    Fragment.restore_of_tokenFree tokenless]

/-- Cells without spans are all kept where no column is covered. -/
theorem placeCells_units (contents : List Text) :
    (placeCells [] [] (contents.map (Cell.unit none))).1 = contents.map (Cell.unit none) := by
  induction contents with
  | nil => rfl
  | cons content others inductionHypothesis =>
    simp [placeCells, Cell.unit, inductionHypothesis]

theorem columns_left : columns "l".toList = [.left] := by
  decide

/-- A plain text is one row, divided by its separators. -/
theorem IsPlain.readGrid_eq {text first : Text} {others : List Text} (plain : IsPlain text)
    (visible : Text.isBlankText text = false) (split : splitCells text = first :: others)
    (colors : ColorTable) :
    readGrid colors (columns "l".toList) text =
      [unitRow (Text.trim first) (others.map Text.trim)] := by
  have free := GridFree.of_plain plain.commandless
  have cells : (splitCells text).map (Cell.read colors) =
      (splitCells text).map fun piece => Cell.unit none (Text.trim piece) :=
    List.map_congr_left fun piece member =>
      (free.of_infix (infix_of_mem_splitCells member)).read_eq colors
  have rows : readRows colors text =
      [⟨Cell.unit none (Text.trim first) :: (others.map Text.trim).map (Cell.unit none), none⟩] := by
    rw [split] at cells
    simp [readRows, free.dropRepeatedHeaders_eq, splitRows,
      rowsFrom_of_plain plain.commandless, free.stripRules_eq, free.takeRowColor_eq, visible,
      split, cells]
  have placed : (Grid.addRow [.left] .empty ⟨Cell.unit none (Text.trim first) ::
      (others.map Text.trim).map (Cell.unit none), none⟩).rows =
        [⟨Cell.unit (some .left) (Text.trim first) ::
          (placeCells [] [] ((others.map Text.trim).map (Cell.unit none))).1, none⟩] := rfl
  rw [readGrid, rows, columns_left, List.foldl_cons, List.foldl_nil, placed, placeCells_units,
    unitRow]

/-- The table of a plain text. -/
theorem IsPlain.render_eq {text first : Text} {others : List Text} (plain : IsPlain text)
    (visible : Text.isBlankText text = false) (split : splitCells text = first :: others)
    (colors : ColorTable) :
    render colors "l".toList text = rowTable
      (writtenUnits (shown (Text.trim first)) (others.map fun piece => shown (Text.trim piece))) := by
  have answers : ∀ content ∈ Text.trim first :: others.map Text.trim,
      renderCell? colors (render? colors) content = some (shown content) := by
    intro content member
    rw [← List.map_cons, ← split] at member
    obtain ⟨piece, listed, rfl⟩ := List.mem_map.mp member
    exact (plain.of_infix ((Text.trim_infix piece).trans
      (infix_of_mem_splitCells listed))).renderCell?_eq colors _
  rw [render, render?, renderGrid?, plain.readGrid_eq visible split, html?_unitRow answers,
    Option.getD_some, List.map_map, Function.comp_def]

/-- A row with one cell has four tags, and every further cell has two more. -/
theorem count_writtenUnits (first : Text) (others : List Text) :
    (writtenUnits first others).count '<' =
      4 + 2 * others.length + countAll '<' (first :: others) := by
  have tags : rowTag.count '<' = 1 ∧ leftTag.count '<' = 1 ∧ cellTag.count '<' = 1 ∧
      cellEnd.count '<' = 1 ∧ rowEnd.count '<' = 1 := by decide
  have further : (others.flatMap fun content => cellTag ++ content ++ cellEnd).count '<' =
      2 * others.length + countAll '<' others := by
    induction others with
    | nil => rfl
    | cons content others inductionHypothesis =>
      rw [List.flatMap_cons, List.count_append, inductionHypothesis, List.count_append,
        List.count_append, countAll_cons, List.length_cons]
      omega
  rw [writtenUnits, List.count_append, List.count_append, List.count_append, List.count_append,
    List.count_append, further, countAll_cons]
  omega

/-- A cell shows as many tags as its content has. -/
theorem count_shown (piece : Text) : (shown (Text.trim piece)).count '<' = piece.count '<' := by
  have trimmed (text : Text) : (Text.trim text).count '<' = text.count '<' :=
    Text.countP_trim (fun c sign => by rw [eq_of_beq sign]; decide) text
  rw [shown, trimmed, Symbol.count_replacePunctuation (by decide), trimmed]

theorem rowTable_injective {first second : Text} (same : rowTable first = rowTable second) :
    first = second := by
  rw [rowTable, rowTable, List.cons.injEq] at same
  have behind := List.append_cancel_left same.2
  rw [List.cons.injEq] at behind
  exact List.append_cancel_right behind.2

/-- The table of a plain text is the single cell with the text exactly if nothing
divides the text and nothing in it is replaced. -/
theorem IsPlain.render_eq_singleCell_iff {text : Text} (plain : IsPlain text)
    (trimmed : Text.trim text = text) (visible : Text.isBlankText text = false)
    (colors : ColorTable) :
    render colors "l".toList text = singleCell text ↔ Survives text := by
  obtain ⟨first, others, split⟩ := exists_splitCells text
  have joined := joinWith_splitCells text
  rw [plain.render_eq visible split, singleCell_eq]
  rw [split] at joined
  constructor
  · intro same
    have row := rowTable_injective same
    have signs : countAll '<' (first :: others) = text.count '<' := by
      rw [← count_joinWith (by decide : '<' ∉ ['&']), joined]
    have tags := congrArg (List.count '<') row
    have shownSigns : countAll '<' (shown (Text.trim first) ::
        others.map fun piece => shown (Text.trim piece)) = countAll '<' (first :: others) := by
      simp only [countAll, List.map_cons, List.map_map, Function.comp_def, count_shown]
    rw [count_writtenUnits, count_writtenUnits, shownSigns, signs, List.length_map] at tags
    have alone : others = [] := by
      rw [← List.length_eq_zero_iff]
      simp only [countAll_cons, countAll_nil, List.length_nil] at tags
      omega
    subst alone
    have whole : first = text := joined
    subst whole
    refine ⟨split, Symbol.unpunctuated_of_countP_le ?_⟩
    have content : shown first = first := by
      simp only [writtenUnits, List.map_nil, List.append_cancel_left_eq,
        List.append_cancel_right_eq] at row
      rwa [trimmed] at row
    have visibleSigns : ∀ c, Symbol.isSign c = true → Text.isBlank c = false := by
      have listed : ∀ c ∈ "`'-~".toList, Text.isBlank c = false := by decide
      exact fun c sign => listed c (List.contains_iff_mem.mp sign)
    rw [← Text.countP_trim visibleSigns (Symbol.replacePunctuation first), ← shown, content]
  · intro survives
    obtain ⟨rfl, rfl⟩ := List.cons.inj (split.symm.trans survives.undivided)
    rw [trimmed, shown, Symbol.replacePunctuation_of_unpunctuated survives.unpunctuated, trimmed,
      List.map_nil]

/-- A table whose only row is one line is laid out as it is. -/
theorem finishLayout_rowTable {row : Text} (single : '\n' ∉ row) (start : row = '<' :: row.tail) :
    Text.finishLayout (rowTable row) = rowTable row := by
  have lines : Text.splitOn '\n' (rowTable row) = [[], tableTag, row, tableEnd, []] := by
    rw [rowTable, Text.splitOn, if_pos rfl,
      Text.splitOn_append_cons (by decide : '\n' ∉ tableTag), Text.splitOn_append_cons single,
      Text.splitOn_append_cons (by decide : '\n' ∉ tableEnd)]
    rfl
  have tags : tableTag = '<' :: tableTag.tail ∧ tableEnd = '<' :: tableEnd.tail := by decide
  have kept : Text.dropSurplusBlankLines false false [[], tableTag, row, tableEnd, []] =
      [[], tableTag, row, tableEnd, []] := by
    have blank (others : List Text) : Text.dropSurplusBlankLines false false ([] :: others) =
        [] :: Text.dropSurplusBlankLines false true others := rfl
    rw [blank, tags.1, Text.dropSurplusBlankLines_tag, start, Text.dropSurplusBlankLines_tag, tags.2,
      Text.dropSurplusBlankLines_tag]
    rfl
  have visible : Text.isBlankText (rowTable row) = false := by
    rw [rowTable, tags.1]
    rfl
  rw [Text.finishLayout, visible, if_neg Bool.false_ne_true, lines, kept, ← lines,
    Text.joinWith_splitOn]

/-- The table of a plain line is laid out as it is. -/
theorem IsPlain.finishLayout_render {text : Text} (plain : IsPlain text)
    (visible : Text.isBlankText text = false) (single : '\n' ∉ text) (colors : ColorTable) :
    Text.finishLayout (render colors "l".toList text) = render colors "l".toList text := by
  obtain ⟨first, others, split⟩ := exists_splitCells text
  have contents : ∀ piece ∈ first :: others, '\n' ∉ shown (Text.trim piece) := by
    intro piece listed member
    rw [← split] at listed
    have inside : '\n' ∉ Text.trim piece := fun member =>
      single (((Text.trim_infix piece).trans (infix_of_mem_splitCells listed)).subset member)
    exact Symbol.not_mem_replacePunctuation (by decide) inside
      ((Text.trim_infix _).subset member)
  have tags : '\n' ∉ rowTag ∧ '\n' ∉ leftTag ∧ '\n' ∉ cellTag ∧ '\n' ∉ cellEnd ∧ '\n' ∉ rowEnd := by
    decide
  rw [plain.render_eq visible split]
  refine finishLayout_rowTable ?_ rfl
  rw [List.forall_mem_cons] at contents
  simp only [writtenUnits, List.mem_append, List.mem_flatMap, List.mem_map, not_or, not_exists,
    not_and]
  refine ⟨⟨⟨tags.1, ⟨tags.2.1, contents.1⟩, tags.2.2.2.1⟩, ?_⟩, tags.2.2.2.2⟩
  rintro content ⟨piece, listed, rfl⟩
  exact ⟨⟨tags.2.2.1, contents.2 piece listed⟩, tags.2.2.2.1⟩

end Table

end LatexMarkdown
