import LatexMarkdown.Preamble.Definition
import LatexMarkdown.Proofs.Absent
import LatexMarkdown.Proofs.Editor
import LatexMarkdown.Proofs.Storing
import LatexMarkdown.Proofs.TableCounting

/-!
# How deep tables nest

A nested table has two backslashes less than the table around it. That bounds
the depth as long as neither the values of colours nor formulas bring commands
back. The value of a colour can: one that shows a table in the colour itself
never comes to an end.
-/

namespace LatexMarkdown.Table

open Scan Document Document.Alternation

/-! ## Nested tables -/

section Nested

variable {table? : Text → Text → Option Text} {family : Family}

theorem nestedRule_of_unread {cursor : Cursor} {text : Text} (complete : Bool)
    (unread : readEnvironment family.name.toList family.maxOptions family.required cursor text =
      none) : nestedRule table? family complete cursor text =
        (complete, (Text.dropFront? (beginMarker family.name.toList) text).map fun after =>
          Edit.byAnswer text after none) := by
  simp only [nestedRule, environmentRule, unread]

theorem nestedRule_of_read {cursor : Cursor} {text rest : Text} {environment : Environment}
    (read : readEnvironment family.name.toList family.maxOptions family.required cursor text =
      some (environment, rest)) :
    nestedRule table? family true cursor text =
      match table? (family.specification environment) environment.body with
      | some table => (true, some (Edit.upTo text rest table))
      | none => (false, some (Edit.upTo text rest [])) := by
  simp only [nestedRule, environmentRule, read]
  cases converted : table? (family.specification environment) environment.body with
  | none => rw [nestedAnswer_none converted, byAnswer_some]
  | some table => rw [nestedAnswer_some converted, byAnswer_some]

/-- A text that is one environment becomes its table. -/
theorem renderNested_whole {text table : Text} {environment : Environment}
    (read : readEnvironment family.name.toList family.maxOptions family.required Cursor.start
      text = some (environment, []))
    (converted : table? (family.specification environment) environment.body = some table) :
    renderNested table? family true text = (true, table) :=
  editEnvironment_whole read (nestedAnswer_some converted)

/-- A text whose first environment has no output has none. -/
theorem renderNested_of_failed {text : Text} {environment : Environment}
    (found : findEnvironmentFrom family.name.toList family.maxOptions family.required
      Cursor.start 0 text = some environment)
    (failed : table? (family.specification environment) environment.body = none) :
    (renderNested table? family true text).1 = false := by
  have general : ∀ (text : Text) (cursor : Cursor) (covered : Nat),
      findEnvironmentFrom family.name.toList family.maxOptions family.required cursor covered
        text = some environment →
      (editFrom (nestedRule table? family) true cursor covered text).1 = false := by
    intro text
    induction text with
    | nil =>
      intro cursor covered found
      simp [findEnvironmentFrom] at found
    | cons c rest inductionHypothesis =>
      intro cursor covered found
      cases covered with
      | succ covered => exact inductionHypothesis (cursor.advance c) covered found
      | zero =>
      rw [findEnvironmentFrom] at found
      cases read : readEnvironment family.name.toList family.maxOptions family.required cursor
          (c :: rest) with
      | none =>
        rw [read] at found
        rw [editFrom, nestedRule_of_unread true read]
        cases opened : Text.dropFront? (beginMarker family.name.toList) (c :: rest) with
        | none =>
          have unopened := Text.dropFront?_eq_none_iff.mp opened
          simp only [mt Text.startsWith_iff.mp unopened] at found
          exact inductionHypothesis _ 0 found
        | some after =>
          have whole := Text.dropFront?_eq_some_iff.mp opened
          have width : (Edit.byAnswer (c :: rest) after none).width =
              (beginMarker family.name.toList).length := by
            rw [whole, byAnswer_none, Edit.upTo, List.length_append, Nat.add_sub_cancel]
          simp only [Text.startsWith_iff.mpr ⟨after, whole.symm⟩, if_true] at found
          simp only [Option.map_some, width]
          exact inductionHypothesis _ _ found
      | some reading =>
        rw [read] at found
        obtain rfl := Option.some.inj found
        rw [editFrom, nestedRule_of_read read, failed]
        exact editFrom_incomplete (nestedRule_incomplete family) _ _ _
  exact general text Cursor.start 0 found

end Nested

/-! ## Tables that come to an end -/

theorem renderCell?_eq (colors : ColorTable) (table? : Text → Text → Option Text)
    (content : Text) :
    renderCell? colors table? content =
      if (renderFamilies table? families (true, (storeFormulas colors content).2)).1 then
        some (finishCell colors (storeFormulas colors content).1
          (renderFamilies table? families (true, (storeFormulas colors content).2)).2)
      else none :=
  rfl

/-- The backslashes of a text. Every nested table takes two of them. -/
def commandCount (text : Text) : Nat :=
  text.count '\\'

section Ends

variable {colors : ColorTable}

/-- A text in which no formula begins. -/
def FormulaFree (text : Text) : Prop :=
  '$' ∉ text ∧ '(' ∉ text

instance (text : Text) : Decidable (FormulaFree text) :=
  inferInstanceAs (Decidable (_ ∧ _))

theorem FormulaFree.of_count {text other : Text} (free : FormulaFree text)
    (fewer : ∀ c ∈ marks, other.count c ≤ text.count c + addedBreak c) : FormulaFree other := by
  refine ⟨?_, ?_⟩ <;> rw [← List.count_eq_zero] <;> apply Nat.eq_zero_of_le_zero
  · have bound := fewer '$' (by decide)
    rwa [List.count_eq_zero.mpr free.1] at bound
  · have bound := fewer '(' (by decide)
    rwa [List.count_eq_zero.mpr free.2] at bound

/-- A text in which no formula opens has none to store. -/
theorem storeFormulas_of_absent {content : Text} (dollar : '$' ∉ content)
    (opening : ¬ Math.parentheses.opening <:+: content) :
    storeFormulas colors content = (.empty, content) := by
  simp only [storeFormulas, FragmentStore.protectDelimited, editDelimited_of_absent opening,
    FragmentStore.protectDollars, editDollars_of_absent dollar]

/-- A text in which no formula begins has none to store. -/
theorem storeFormulas_of_free {content : Text} (free : FormulaFree content) :
    storeFormulas colors content = (.empty, content) := by
  have sign : '(' ∈ Math.parentheses.opening := by decide
  exact storeFormulas_of_absent free.1 fun occurs => free.2 (occurs.subset sign)

/-- A conversion that has an output for every table without formulas whose
environment takes at most a number of backslashes. -/
def Converts (table? : Text → Text → Option Text) (limit : Nat) : Prop :=
  ∀ specification body, FormulaFree body → commandCount body + 2 ≤ limit →
    ∃ table, table? specification body = some table ∧
      ∀ c ∈ marks, table.count c ≤ body.count c + addedBreak c

variable {table? : Text → Text → Option Text} {limit : Nat}

theorem addedBreak_le_beginMarker (c : Char) (name : Text) :
    addedBreak c ≤ (beginMarker name).count c := by
  have start : ['\\'] <+: beginMarker name := ⟨_, rfl⟩
  exact start.sublist.count_le c

/-- The markers of an environment take two backslashes more than its body. -/
theorem commandCount_body {name : Text} {maxOptions required : Nat} {cursor : Cursor}
    {text rest : Text} {environment : Environment}
    (read : readEnvironment name maxOptions required cursor text = some (environment, rest)) :
    commandCount environment.body + 2 ≤ commandCount text := by
  have apart := readEnvironment_count (c := '\\') read
  have opening := addedBreak_le_beginMarker '\\' name
  have closing : addedBreak '\\' ≤ (endMarker name).count '\\' := by
    have start : ['\\'] <+: endMarker name := ⟨_, rfl⟩
    exact start.sublist.count_le '\\'
  have one : addedBreak '\\' = 1 := rfl
  rw [commandCount, commandCount]
  omega

theorem FormulaFree.body {text : Text} (free : FormulaFree text) {name : Text}
    {maxOptions required : Nat} {cursor : Cursor} {suffix rest : Text}
    {environment : Environment} (within : suffix <:+ text)
    (read : readEnvironment name maxOptions required cursor suffix = some (environment, rest)) :
    FormulaFree environment.body := by
  refine free.of_count fun c _ => ?_
  have apart := readEnvironment_count (c := c) read
  have inside := count_le_of_suffix (c := c) within
  omega

/-- Where every nested table has an output, all of one kind are converted, and no
mark comes in. -/
theorem renderNested_converts (converts : Converts table? limit) (family : Family) {text : Text}
    (free : FormulaFree text) (few : commandCount text ≤ limit) :
    (renderNested table? family true text).1 = true ∧
      ∀ c ∈ marks, (renderNested table? family true text).2.count c ≤ text.count c := by
  have counted : ∀ c ∈ marks, (renderNested table? family true text).1 = true ∧
      0 + (renderNested table? family true text).2.count c ≤ 0 + text.count c := by
    intro c mark
    refine editFrom_count (· = true) (fun _ => 0) (fun complete cursor suffix within _ begun => ?_)
      true rfl Cursor.start 0
    subst begun
    change (nestedRule table? family true cursor suffix).1 = true ∧
      0 + (Edit.applied suffix (nestedRule table? family true cursor suffix).2).count c ≤ _
    cases read : readEnvironment family.name.toList family.maxOptions family.required cursor
        suffix with
    | none =>
      rw [nestedRule_of_unread true read]
      refine ⟨rfl, ?_⟩
      cases opened : Text.dropFront? (beginMarker family.name.toList) suffix with
      | none => exact Nat.le_refl _
      | some after =>
        obtain rfl := Text.dropFront?_eq_some_iff.mp opened
        rw [Option.map_some, Edit.applied_byAnswer_none (List.suffix_append _ after)]
    | some reading =>
      obtain ⟨environment, rest⟩ := reading
      have remains : rest <:+ suffix := by
        obtain ⟨matched, -, spelled⟩ := readEnvironment_remains read
        exact ⟨matched, spelled.symm⟩
      have smaller := commandCount_body read
      have inside := count_le_of_suffix (c := '\\') within
      rw [commandCount] at few smaller
      obtain ⟨table, converted, bound⟩ := converts (family.specification environment)
        environment.body (free.body within read) (by rw [commandCount] at *; omega)
      rw [nestedRule_of_read read, converted]
      refine ⟨rfl, ?_⟩
      have apart := readEnvironment_count (c := c) read
      have opening := addedBreak_le_beginMarker c family.name.toList
      have table_bound := bound c mark
      simp only [Edit.applied_upTo remains, List.count_append]
      omega
  exact ⟨(counted '\\' (by decide)).1, fun c mark => by simpa using (counted c mark).2⟩

/-- Where every nested table has an output, all in a cell are converted. -/
theorem renderFamilies_converts (converts : Converts table? limit) (kinds : List Family)
    {text : Text} (free : FormulaFree text) (few : commandCount text ≤ limit) :
    (renderFamilies table? kinds (true, text)).1 = true ∧
      ∀ c ∈ marks, (renderFamilies table? kinds (true, text)).2.count c ≤ text.count c := by
  induction kinds generalizing text with
  | nil => exact ⟨rfl, fun _ _ => Nat.le_refl _⟩
  | cons family others inductionHypothesis =>
    obtain ⟨complete, fewer⟩ := renderNested_converts converts family free few
    have reached : renderNested table? family true text =
        (true, (renderNested table? family true text).2) := Prod.ext complete rfl
    have later := inductionHypothesis
      (free.of_count fun c mark => (fewer c mark).trans (Nat.le_add_right _ _))
      ((fewer '\\' (by decide)).trans few)
    rw [renderFamilies_cons, reached]
    exact ⟨later.1, fun c mark => (later.2 c mark).trans (fewer c mark)⟩

/-- A cell without formulas has an output if its nested tables have, and no mark
comes in. -/
theorem renderCell?_converts (unmarked : colors.Unmarked) (converts : Converts table? limit)
    {content : Text} (free : FormulaFree content) (few : commandCount content ≤ limit) :
    ∃ written, renderCell? colors table? content = some written ∧
      ∀ c ∈ marks, written.count c ≤ content.count c := by
  obtain ⟨complete, fewer⟩ := renderFamilies_converts converts families free few
  rw [renderCell?_eq, storeFormulas_of_free free, if_pos complete]
  refine ⟨_, rfl, fun c mark => ?_⟩
  rw [finishCell]
  calc
    _ ≤ _ := FragmentStore.count_restore_empty _
    _ ≤ _ := Text.count_trim_le _ c
    _ ≤ _ := Symbol.count_normalize mark _
    _ ≤ _ := count_unescapeSpecials mark _
    _ ≤ _ := count_renderStyles unmarked mark _
    _ ≤ _ := fewer c mark

theorem exists_mapM {α β : Type} {write : α → Option β} {items : List α}
    (each : ∀ item ∈ items, ∃ piece, write item = some piece) :
    ∃ pieces, items.mapM write = some pieces := by
  induction items with
  | nil => exact ⟨[], by simp⟩
  | cons item others inductionHypothesis =>
    rw [List.forall_mem_cons] at each
    obtain ⟨piece, first⟩ := each.1
    obtain ⟨pieces, later⟩ := inductionHypothesis each.2
    exact ⟨piece :: pieces, by simp [first, later]⟩

/-- The contents of all cells, row by row. -/
def contents (rows : List Row) : List Text :=
  rows.flatMap fun row => row.cells.map Cell.content

variable {content? : Text → Option Text} {rows : List Row}

theorem mem_contents {content : Text} :
    content ∈ contents rows ↔ ∃ row ∈ rows, ∃ cell ∈ row.cells, cell.content = content := by
  simp [contents]

/-- If the content of every cell has an output, so has the table. -/
theorem exists_html?
    (each : ∀ content ∈ contents rows, ∃ written, content? content = some written) :
    ∃ table, html? content? rows = some table := by
  have cells (row : Row) (listed : row ∈ rows) : ∃ written, row.html? content? = some written := by
    have single (cell : Cell) (member : cell ∈ row.cells) :
        ∃ written, cell.html? content? = some written := by
      obtain ⟨written, converted⟩ :=
        each cell.content (mem_contents.mpr ⟨row, listed, cell, member, rfl⟩)
      exact ⟨_, by rw [Cell.html?, converted, Option.map_some]⟩
    obtain ⟨pieces, mapped⟩ := exists_mapM single
    exact ⟨_, by rw [Row.html?, mapped, Option.map_some]⟩
  obtain ⟨pieces, mapped⟩ := exists_mapM cells
  exact ⟨_, by rw [html?, mapped, Option.map_some]⟩

/-- The content of a cell has at most the characters of all texts of the grid. -/
theorem count_content_le {c : Char} {content : Text} (listed : content ∈ contents rows) :
    content.count c ≤ countAll c (rows.flatMap Row.texts) := by
  obtain ⟨row, row_listed, cell, cell_listed, rfl⟩ := mem_contents.mp listed
  refine count_le_countAll (List.mem_flatMap.mpr ⟨row, row_listed, ?_⟩)
  exact List.mem_append_right _ (List.mem_flatMap.mpr ⟨cell, cell_listed, List.mem_cons_self⟩)

theorem countAll_flatMap_le {c : Char} {α : Type} {first second : α → List Text} {items : List α}
    (each : ∀ item ∈ items, countAll c (first item) ≤ countAll c (second item)) :
    countAll c (items.flatMap first) ≤ countAll c (items.flatMap second) := by
  induction items with
  | nil => exact Nat.le_refl _
  | cons item others inductionHypothesis =>
    rw [List.forall_mem_cons] at each
    rw [List.flatMap_cons, List.flatMap_cons, countAll_append, countAll_append]
    exact Nat.add_le_add each.1 (inductionHypothesis each.2)

/-- If no content gets more of a character, a table takes over no more of it than
its grid has. -/
theorem countAll_taken_le {c : Char} (fewer : ∀ content ∈ contents rows, ∀ written,
    content? content = some written → written.count c ≤ content.count c) :
    countAll c (rows.flatMap (Row.taken content?)) ≤ countAll c (rows.flatMap Row.texts) := by
  refine countAll_flatMap_le fun row row_listed => ?_
  rw [Row.taken, Row.texts, countAll_append, countAll_append]
  refine Nat.add_le_add_left (countAll_flatMap_le fun cell cell_listed => ?_) _
  have listed := mem_contents.mpr ⟨row, row_listed, cell, cell_listed, rfl⟩
  rw [Cell.taken, Cell.texts, countAll_append, countAll_cons, Nat.add_comm]
  refine Nat.add_le_add_right ?_ _
  cases converted : content? cell.content with
  | none => exact Nat.zero_le _
  | some written => simpa using fewer _ listed written converted

/-- A table without formulas has an output if it is given more depth than its
body has commands. -/
theorem renderAt?_converts (unmarked : colors.Unmarked) (depth : Nat) :
    Converts (renderAt? colors depth) (depth + 1) := by
  induction depth with
  | zero =>
    intro specification body _ few
    omega
  | succ depth inductionHypothesis =>
    intro specification body free few
    have shared := fun c mark =>
      countAll_readGrid (c := c) unmarked mark (columns specification) body
    have cell {content : Text}
        (listed : content ∈ contents (readGrid colors (columns specification) body)) :
        ∃ written, renderCell? colors (renderAt? colors depth) content = some written ∧
          ∀ c ∈ marks, written.count c ≤ content.count c := by
      refine renderCell?_converts unmarked inductionHypothesis (free.of_count fun c mark =>
        (count_content_le listed).trans (shared c mark)) ?_
      have few_here := (count_content_le listed).trans (shared '\\' (by decide))
      have one : addedBreak '\\' = 1 := rfl
      simp only [commandCount] at few ⊢
      omega
    obtain ⟨table, converted⟩ := exists_html? fun content listed =>
      let ⟨written, converted, _⟩ := cell listed
      ⟨written, converted⟩
    refine ⟨table, converted, fun c mark => ?_⟩
    rw [count_html mark converted]
    refine (countAll_taken_le fun content listed written converted => ?_).trans (shared c mark)
    obtain ⟨same, found, fewer⟩ := cell listed
    obtain rfl := Option.some.inj (found.symm.trans converted)
    exact fewer c mark

end Ends

/-! ## Cells without tables -/

section Apart

variable {σ : Type} {rule : Rule σ} {pattern : Text}

/-- A rule that writes at least one character, and none of a pattern. -/
def WritesApart (rule : Rule σ) (pattern : Text) : Prop :=
  ∀ state cursor suffix edit, (rule state cursor suffix).2 = some edit →
    edit.replacement ≠ [] ∧ Text.Apart edit.replacement pattern

/-- What an edit is apart from starts the edited text only where it started the
text. -/
theorem prefix_of_prefix_editFrom (apart : WritesApart rule pattern) {front : Text}
    (within : front ⊆ pattern) {state : σ} {cursor : Cursor} {text : Text}
    (start : front <+: (editFrom rule state cursor 0 text).2) : front <+: text := by
  induction text generalizing front state cursor with
  | nil => simpa using start
  | cons c rest inductionHypothesis =>
    cases front with
    | nil => exact List.nil_prefix
    | cons expected front =>
      rw [editFrom] at start
      cases offered : rule state cursor (c :: rest) with
      | mk next offer =>
        rw [offered] at start
        cases offer with
        | none =>
          obtain ⟨rfl, behind⟩ := List.cons_prefix_cons.mp start
          have later := inductionHypothesis (fun d member => within (List.mem_cons_of_mem _ member))
            behind
          exact List.cons_prefix_cons.mpr ⟨rfl, later⟩
        | some edit =>
          obtain ⟨nonempty, absent⟩ := apart state cursor (c :: rest) edit (by rw [offered])
          obtain ⟨written, others, shape⟩ := List.exists_cons_of_ne_nil nonempty
          simp only [shape] at start absent
          obtain ⟨rfl, -⟩ := List.cons_prefix_cons.mp start
          exact absurd (within List.mem_cons_self) (absent _ List.mem_cons_self)

/-- What an edit is apart from occurs in the edited text only if it occurred in
the text. -/
theorem infix_of_infix_editFrom (apart : WritesApart rule pattern) {state : σ} {cursor : Cursor}
    {covered : Nat} {text : Text}
    (occurs : pattern <:+: (editFrom rule state cursor covered text).2) : pattern <:+: text := by
  induction text generalizing state cursor covered with
  | nil => simpa using occurs
  | cons c rest inductionHypothesis =>
    rw [List.infix_cons_iff]
    cases covered with
    | succ covered => exact .inr (inductionHypothesis occurs)
    | zero =>
      have start : pattern <+: (editFrom rule state cursor 0 (c :: rest)).2 →
          pattern <+: c :: rest := prefix_of_prefix_editFrom apart (List.Subset.refl pattern)
      rw [editFrom] at occurs start
      cases offered : rule state cursor (c :: rest) with
      | mk next offer =>
        rw [offered] at occurs start
        cases offer with
        | none =>
          rcases List.infix_cons_iff.mp occurs with here | later
          · exact .inl (start here)
          · exact .inr (inductionHypothesis later)
        | some edit =>
          obtain ⟨-, absent⟩ := apart state cursor (c :: rest) edit (by rw [offered])
          exact .inr (inductionHypothesis ((Text.infix_append_left_iff absent).mp occurs))

end Apart

/-- Storing the formulas of a cell brings in no environment. -/
theorem opening_storeFormulas {colors : ColorTable} {content : Text}
    (occurs : Inset.environmentOpening <:+: (storeFormulas colors content).2) :
    Inset.environmentOpening <:+: content := by
  have token (index : Nat) : Fragment.token index ≠ [] ∧
      Text.Apart (Fragment.token index) Inset.environmentOpening := by
    refine ⟨Fragment.token_ne_nil index, fun c member opening => ?_⟩
    have foreign : ∀ c ∈ Inset.environmentOpening,
        c.isDigit = false ∧ c ∉ Fragment.tokenOpening := by decide
    exact Fragment.not_mem_token (foreign c opening) index member
  have dollars (formula : Text → Text) : WritesApart
      (dollarsRule fun store body => FragmentStore.push store (formula body))
      Inset.environmentOpening := by
    intro store cursor suffix edit offered
    cases suffix with
    | nil => cases offered
    | cons c inside =>
      simp only [dollarsRule] at offered
      split at offered
      · cases offered
      split at offered
      · cases offered
      · cases offered
      · obtain rfl := Option.some.inj offered
        exact token _
  have delimited (formula : Text → Text) : WritesApart
      (delimitedRule Math.parentheses.opening Math.parentheses.closing
        (FragmentStore.stored fun (_ : Unit) body => ((), some (formula body))))
      Inset.environmentOpening := by
    intro store cursor suffix edit offered
    simp only [delimitedRule] at offered
    split at offered
    · cases offered
    split at offered
    · cases offered
    · obtain rfl := Option.some.inj offered
      exact token _
  exact infix_of_infix_editFrom (delimited _) (infix_of_infix_editFrom (dollars _) occurs)

section Unopened

variable {colors : ColorTable} {table? : Text → Text → Option Text}

/-- Without an environment there is no table to convert. -/
theorem renderFamilies_of_unopened {kinds : List Family} {text : Text}
    (unopened : ¬ Inset.environmentOpening <:+: text) :
    renderFamilies table? kinds (true, text) = (true, text) := by
  have silent (family : Family) : renderNested table? family true text = (true, text) := by
    exact editEnvironment_of_absent (fun occurs => unopened
      ((environmentOpening_starts family.name.toList).isInfix.trans occurs)) _ _ _ _
  induction kinds with
  | nil => rfl
  | cons family others inductionHypothesis =>
    rw [renderFamilies_cons, silent, inductionHypothesis]

/-- A cell without an environment has an output, whatever becomes of tables. -/
theorem renderCell?_of_unopened {content : Text}
    (unopened : ¬ Inset.environmentOpening <:+: content) :
    renderCell? colors table? content =
      some (finishCell colors (storeFormulas colors content).1 (storeFormulas colors content).2) := by
  rw [renderCell?_eq, renderFamilies_of_unopened fun occurs => unopened
    (opening_storeFormulas occurs)]
  rfl

end Unopened

/-! ## The depth of a table -/

/-- A text in which no formula or no environment begins. -/
def Settles (content : Text) : Prop :=
  FormulaFree content ∨ ¬ Inset.environmentOpening <:+: content

instance (content : Text) : Decidable (Settles content) :=
  inferInstanceAs (Decidable (_ ∨ _))

/-- If no value of a colour has a mark and no cell has both formulas and nested
tables, a table comes to an end: the depth need not be greater than the number of
commands in the body. -/
theorem renderAt?_of_settles {colors : ColorTable} (unmarked : colors.Unmarked)
    {specification body : Text}
    (settles : ∀ content ∈ contents (readGrid colors (columns specification) body),
      Settles content) {depth : Nat} (deep : commandCount body < depth) :
    renderAt? colors depth specification body = some (render colors specification body) := by
  obtain ⟨before, rfl⟩ := Nat.exists_eq_add_one_of_ne_zero (Nat.ne_zero_of_lt deep)
  obtain ⟨table, converted⟩ : ∃ table,
      renderAt? colors (before + 1) specification body = some table := by
    refine exists_html? fun content listed => ?_
    rcases settles content listed with free | unopened
    · have few := (count_content_le listed).trans (countAll_readGrid (c := '\\') unmarked
        (by decide) (columns specification) body)
      have one : addedBreak '\\' = 1 := rfl
      obtain ⟨written, converted, -⟩ := renderCell?_converts unmarked
        (renderAt?_converts unmarked before) free (by simp only [commandCount] at *; omega)
      exact ⟨written, converted⟩
    · exact ⟨_, renderCell?_of_unopened unopened⟩
  rw [converted, render_of_renderAt? converted]

/-- A colour whose value has no mark. -/
def plainColors : ColorTable :=
  ⟨[("a".toList, "#ff0000".toList)]⟩

/-- A table that shows a text in that colour. -/
def coloredTable : Text :=
  "\\begin\x7btabular\x7d\x7bl\x7d\\textcolor\x7ba\x7d\x7bx\x7d\\end\x7btabular\x7d".toList

/-- A body with that table in one cell and a formula in another. -/
def mixedBody : Text :=
  "$y$ & ".toList ++ coloredTable ++ " \\\\ \\(z\\)".toList

theorem renderAt?_mixedBody :
    plainColors.Unmarked ∧
    (∀ content ∈ contents (readGrid plainColors (columns "ll".toList) mixedBody),
      Settles content) ∧
    commandCount mixedBody < 100 ∧
    renderAt? plainColors 100 "ll".toList mixedBody =
      some (render plainColors "ll".toList mixedBody) := by
  have unmarked : plainColors.Unmarked := by decide
  have settles : ∀ content ∈ contents (readGrid plainColors (columns "ll".toList) mixedBody),
      Settles content := by decide +kernel
  have deep : commandCount mixedBody < 100 := by decide
  exact ⟨unmarked, settles, deep, renderAt?_of_settles unmarked settles deep⟩

/-! ## A table without an end -/

/-- A source that gives the colour a value with that table in a table of another
kind. -/
def circularSource : Text :=
  "\\colorlet\x7ba\x7d\x7b\\begin\x7btabular*\x7d\x7bw\x7d\x7bl\x7d".toList ++ coloredTable ++
    "\\end\x7btabular*\x7d\x7d".toList

/-- The colours that the source defines. -/
def circularColors : ColorTable :=
  (Preamble.captureColors .empty circularSource).1

/-- The value of the colour brings the table back, so no depth is enough for it. -/
theorem renderAt?_coloredTable (depth : Nat) :
    renderAt? circularColors depth "l".toList coloredTable = none := by
  let word := "\\textcolor\x7ba\x7d\x7bx\x7d".toList
  let plain : Family := ⟨"tabular", 1, 1⟩
  let starred : Family := ⟨"tabular*", 1, 2⟩
  have grid : readGrid circularColors (columns "l".toList) coloredTable =
      [⟨[⟨coloredTable, 1, 1, some .left, none⟩], none⟩] := by decide +kernel
  have stored : storeFormulas circularColors coloredTable = (.empty, coloredTable) :=
    storeFormulas_of_free (by decide)
  have inner : (readEnvironment "tabular".toList 1 1 .start coloredTable).map
      (fun reading => (plain.specification reading.1, reading.1.body, reading.2)) =
        some ("l".toList, word, []) := by decide +kernel
  have back : ((renderAt? circularColors 1 "l".toList word).bind fun shown =>
      (findEnvironmentFrom "tabular*".toList 1 2 .start 0 shown).map fun environment =>
        (starred.specification environment, environment.body)) =
        some ("l".toList, coloredTable) := by decide +kernel
  simp only [Option.map_eq_some_iff, Prod.mk.injEq, Prod.exists] at inner
  simp only [Option.bind_eq_some_iff, Option.map_eq_some_iff, Prod.mk.injEq] at back
  obtain ⟨table, -, read, specification, body, rfl⟩ := inner
  obtain ⟨shown, ends, circle, found, same, again⟩ := back
  induction depth with
  | zero => rfl
  | succ depth inductionHypothesis =>
    cases depth with
    | zero => decide +kernel
    | succ depth =>
      -- The inner table is shown, and its colour holds the next one.
      have first : renderNested (renderAt? circularColors (depth + 1)) plain true coloredTable =
          (true, shown) := by
        refine renderNested_whole read ?_
        rw [specification, body]
        exact renderAt?_mono (by omega) ends
      have second : (renderNested (renderAt? circularColors (depth + 1)) starred true shown).1 =
          false := by
        refine renderNested_of_failed found ?_
        rw [same, again]
        exact inductionHypothesis
      have cell : renderCell? circularColors (renderAt? circularColors (depth + 1)) coloredTable =
          none := by
        rw [renderCell?_eq, if_neg]
        rw [stored, Bool.not_eq_true, families, renderFamilies_cons, first, renderFamilies_cons]
        exact renderFamilies_incomplete _ _ second
      rw [renderAt?, renderGrid?, grid]
      simp [html?, Row.html?, Cell.html?, cell]

/-- A source can define colours with which a table has no output at any depth: it never comes
to an end. -/
theorem renderAt?_circular :
    (∃ source, (Preamble.captureColors .empty source).1 = circularColors) ∧
      (∀ depth, renderAt? circularColors depth "l".toList coloredTable = none) ∧
        comesToEnd circularColors "l".toList coloredTable = false := by
  refine ⟨⟨circularSource, rfl⟩, renderAt?_coloredTable, Bool.eq_false_iff.mpr fun ends => ?_⟩
  obtain ⟨depth, table, converted⟩ := comesToEnd_iff.mp ends
  rw [renderAt?_coloredTable depth] at converted
  cases converted

end LatexMarkdown.Table
