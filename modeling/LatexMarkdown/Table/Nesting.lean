import LatexMarkdown.Table.Render

/-!
# Tables in tables

A table is converted by way of its cells, and a cell by way of the tables in it.
What a nested table became is looked at again, and the value of a colour may hold
a table, so nothing in the text bounds this recursion. It may go on for ever, and
such a table has no output. A table has an output exactly if it has one at some
nesting depth.
-/

namespace LatexMarkdown.Table

/-! ## Conversions that come near another one -/

/-- What holds of all depths from some depth on. -/
def FromSomeDepth (holds : Nat -> Prop) : Prop :=
  exists enough, forall depth, enough ≤ depth -> holds depth

namespace FromSomeDepth

variable {holds others : Nat -> Prop}

theorem of_forall (always : forall depth, holds depth) : FromSomeDepth holds :=
  ⟨0, fun depth _ => always depth⟩

theorem mono (deep : FromSomeDepth holds) (implies : forall depth, holds depth -> others depth) :
    FromSomeDepth others := by
  obtain ⟨enough, deep⟩ := deep
  exact ⟨enough, fun depth reached => implies depth (deep depth reached)⟩

theorem and (first : FromSomeDepth holds) (second : FromSomeDepth others) :
    FromSomeDepth fun depth => holds depth ∧ others depth := by
  obtain ⟨enough, first⟩ := first
  obtain ⟨more, second⟩ := second
  refine ⟨max enough more, fun depth reached => ⟨first depth ?_, second depth ?_⟩⟩
  · exact Nat.le_trans (Nat.le_max_left enough more) reached
  · exact Nat.le_trans (Nat.le_max_right enough more) reached

/-- What holds from some depth on, one level further up. -/
theorem succ (deep : FromSomeDepth fun depth => holds (depth + 1)) : FromSomeDepth holds := by
  obtain ⟨enough, deep⟩ := deep
  refine ⟨enough + 1, fun depth reached => ?_⟩
  obtain ⟨before, rfl⟩ := Nat.exists_eq_add_of_le' reached
  exact deep (before + enough) (Nat.le_add_left enough before)

end FromSomeDepth

/-- Conversions of which, from some depth on, all give what another one gives. -/
def Approach {α β : Type} (partly : Nat -> α -> Option β) (whole : α -> Option β) : Prop :=
  forall item result, whole item = some result ->
    FromSomeDepth fun depth => partly depth item = some result

namespace Approach

variable {α β γ : Type} {partly : Nat -> α -> Option β} {whole : α -> Option β}

/-- An approach item by item is one list by list. -/
theorem mapM (near : Approach partly whole) :
    Approach (fun depth => List.mapM (partly depth)) (List.mapM whole) := by
  intro items
  induction items with
  | nil => exact fun results mapped => .of_forall fun _ => mapped
  | cons item others inductionHypothesis =>
    intro results mapped
    simp only [List.mapM_cons, Option.bind_eq_bind, Option.bind_eq_some_iff, Option.pure_def,
      Option.some.injEq] at mapped
    obtain ⟨first, here, further, later, rfl⟩ := mapped
    refine ((near item first here).and (inductionHypothesis further later)).mono ?_
    rintro depth ⟨here, later⟩
    simp only [List.mapM_cons, here, later, Option.bind_eq_bind, Option.bind_some, Option.pure_def]

/-- What is written about the results of an approach is approached as well. -/
theorem map (near : Approach partly whole) (write : α -> β -> γ) :
    Approach (fun depth item => (partly depth item).map (write item))
      fun item => (whole item).map (write item) := by
  intro item result converted
  obtain ⟨middle, found, rfl⟩ := Option.map_eq_some_iff.mp converted
  exact (near item middle found).mono fun depth same => congrArg (Option.map (write item)) same

end Approach

/-- Where conversions of the contents of cells are an approach, so are those of whole tables. -/
theorem html?_approach {partly : Nat -> Text -> Option Text} {whole : Text -> Option Text}
    (near : Approach partly whole) :
    Approach (fun depth => html? (partly depth)) (html? whole) := by
  have contents : Approach (fun depth (cell : Cell) => partly depth cell.content)
      fun cell => whole cell.content := fun cell => near cell.content
  have cells : Approach (fun depth => Cell.html? (partly depth)) (Cell.html? whole) :=
    contents.map _
  have pieces : Approach (fun depth (row : Row) => row.cells.mapM (Cell.html? (partly depth)))
      fun row => row.cells.mapM (Cell.html? whole) := fun row => cells.mapM row.cells
  have rows : Approach (fun depth => Row.html? (partly depth)) (Row.html? whole) :=
    pieces.map _
  exact rows.mapM.map _

/-! ## Tables inside cells -/

section Nested

variable {rule : Scan.Rule Bool} {rules : Nat -> Scan.Rule Bool}

/-- After a table without an output the conversion of a cell has none. -/
theorem editFrom_incomplete
    (stops : forall cursor text, (rule false cursor text).1 = false)
    (cursor : Scan.Cursor) (covered : Nat) (text : Text) :
    (Scan.editFrom rule false cursor covered text).1 = false := by
  induction text generalizing cursor covered with
  | nil => cases covered <;> rfl
  | cons c rest inductionHypothesis =>
    cases covered with
    | succ covered => exact inductionHypothesis (cursor.advance c) covered
    | zero =>
      have stopped := stops cursor (c :: rest)
      rw [Scan.editFrom]
      generalize rule false cursor (c :: rest) = step at stopped
      obtain ⟨next, offer⟩ := step
      obtain rfl : next = false := stopped
      cases offer with
      | none => exact inductionHypothesis (cursor.advance c) 0
      | some edit => exact inductionHypothesis (cursor.advance c) (edit.width - 1)

/-- Rules that come near another one lead to the same edit where it is complete. -/
theorem editFrom_approach
    (stops : forall cursor text, (rule false cursor text).1 = false)
    (near : forall cursor text, (rule true cursor text).1 = true ->
      FromSomeDepth fun depth => rules depth true cursor text = rule true cursor text)
    (cursor : Scan.Cursor) (covered : Nat) (text : Text)
    (complete : (Scan.editFrom rule true cursor covered text).1 = true) :
    FromSomeDepth fun depth => Scan.editFrom (rules depth) true cursor covered text =
      Scan.editFrom rule true cursor covered text := by
  induction text generalizing cursor covered with
  | nil => cases covered <;> exact .of_forall fun _ => rfl
  | cons c rest inductionHypothesis =>
    cases covered with
    | succ covered => exact inductionHypothesis (cursor.advance c) covered complete
    | zero =>
      have here := near cursor (c :: rest)
      simp only [Scan.editFrom] at complete ⊢
      generalize rule true cursor (c :: rest) = step at complete here
      obtain ⟨next, offer⟩ := step
      cases next with
      | false =>
        cases offer <;> rw [editFrom_incomplete stops] at complete <;> cases complete
      | true =>
        cases offer with
        | none =>
          refine ((here rfl).and (inductionHypothesis _ 0 complete)).mono ?_
          rintro depth ⟨here, later⟩
          simp only [here, later]
        | some edit =>
          refine ((here rfl).and (inductionHypothesis _ (edit.width - 1) complete)).mono ?_
          rintro depth ⟨here, later⟩
          simp only [here, later]

end Nested

section Cell

variable {tables : Nat -> Text -> Text -> Option Text} {table? : Text -> Text -> Option Text}

/-- The rule for the nested tables of one kind. -/
def nestedRule (table? : Text -> Text -> Option Text) (family : Family) : Scan.Rule Bool :=
  Scan.environmentRule family.name.toList family.maxOptions family.required
    (nestedAnswer table? family)

theorem nestedAnswer_some {family : Family} {environment : Scan.Environment} {table : Text}
    (converted : table? (family.specification environment) environment.body = some table) :
    nestedAnswer table? family true environment = (true, some table) := by
  simp only [nestedAnswer, if_true, converted]

theorem nestedAnswer_none {family : Family} {environment : Scan.Environment}
    (failed : table? (family.specification environment) environment.body = none) :
    nestedAnswer table? family true environment = (false, some []) := by
  simp only [nestedAnswer, if_true, failed]

/-- No table is tried after one without an output. -/
theorem nestedRule_incomplete (family : Family) (cursor : Scan.Cursor) (text : Text) :
    (nestedRule table? family false cursor text).1 = false := by
  rw [nestedRule, Scan.environmentRule]
  split <;> rfl

/-- Conversions of tables that come near another one make rules that do. -/
theorem nestedRule_approach (near : forall specification, Approach (tables · specification)
    (table? specification)) (family : Family) (cursor : Scan.Cursor) (text : Text)
    (complete : (nestedRule table? family true cursor text).1 = true) :
    FromSomeDepth fun depth =>
      nestedRule (tables depth) family true cursor text =
        nestedRule table? family true cursor text := by
  simp only [nestedRule, Scan.environmentRule] at complete ⊢
  cases read : Scan.readEnvironment family.name.toList family.maxOptions family.required cursor
      text with
  | none => exact .of_forall fun _ => rfl
  | some reading =>
    obtain ⟨environment, rest⟩ := reading
    simp only [read] at complete
    cases converted : table? (family.specification environment) environment.body with
    | none =>
      rw [nestedAnswer_none converted] at complete
      cases complete
    | some table =>
      refine (near _ _ _ converted).mono fun depth same => ?_
      simp only [nestedAnswer_some converted, nestedAnswer_some same]

theorem renderFamilies_cons (table? : Text -> Text -> Option Text) (family : Family)
    (others : List Family) (start : Bool × Text) :
    renderFamilies table? (family :: others) start =
      renderFamilies table? others (renderNested table? family start.1 start.2) :=
  rfl

theorem renderFamilies_incomplete (table? : Text -> Text -> Option Text) (kinds : List Family)
    {start : Bool × Text} (incomplete : start.1 = false) :
    (renderFamilies table? kinds start).1 = false := by
  induction kinds generalizing start with
  | nil => exact incomplete
  | cons family others inductionHypothesis =>
    rw [renderFamilies_cons, incomplete]
    exact inductionHypothesis (editFrom_incomplete (nestedRule_incomplete family) .start 0 start.2)

theorem renderFamilies_approach (near : forall specification, Approach (tables · specification)
    (table? specification)) (kinds : List Family) {text : Text}
    (complete : (renderFamilies table? kinds (true, text)).1 = true) :
    FromSomeDepth fun depth => renderFamilies (tables depth) kinds (true, text) =
      renderFamilies table? kinds (true, text) := by
  induction kinds generalizing text with
  | nil => exact .of_forall fun _ => rfl
  | cons family others inductionHypothesis =>
    rw [renderFamilies_cons] at complete
    cases nested : renderNested table? family true text with
    | mk stillComplete written =>
    rw [nested] at complete
    cases stillComplete with
    | false =>
      rw [renderFamilies_incomplete table? others rfl] at complete
      cases complete
    | true =>
      have first := editFrom_approach (nestedRule_incomplete family)
        (nestedRule_approach near family) .start 0 text (congrArg Prod.fst nested)
      refine (first.and (inductionHypothesis complete)).mono ?_
      rintro depth ⟨first, later⟩
      have same : renderNested (tables depth) family true text = (true, written) :=
        first.trans nested
      rw [renderFamilies_cons, renderFamilies_cons, same, nested, later]

/-- Conversions of tables that come near another one come near it in every cell. -/
theorem renderCell?_approach (near : forall specification, Approach (tables · specification)
    (table? specification)) (colors : ColorTable) :
    Approach (fun depth => renderCell? colors (tables depth)) (renderCell? colors table?) := by
  intro content written converted
  simp only [renderCell?] at converted ⊢
  split at converted
  next complete =>
    refine (renderFamilies_approach near families complete).mono fun depth same => ?_
    rw [same, if_pos complete]
    exact converted
  · cases converted

/-- Conversions of tables that come near another one come near it in whole tables. -/
theorem renderGrid?_approach (near : forall specification, Approach (tables · specification)
    (table? specification)) (colors : ColorTable) (specification : Text) :
    Approach (fun depth => renderGrid? colors (tables depth) specification)
      (renderGrid? colors table? specification) :=
  fun _ => html?_approach (renderCell?_approach near colors) _

end Cell

/-! ## The output of a table -/

section Fixpoint

variable (colors : ColorTable)

/-- A table, with the tables inside its cells; there is none where tables are found in tables
for ever. -/
def render? (specification body : Text) : Option Text :=
  -- The tactic leaves no note in the term of where in the file the recursive call stands.
  renderGrid? colors (by apply render?) specification body
partial_fixpoint monotonicity by
  intro first second more specification body
  have near : forall specification,
      Approach (fun _ => second specification) (first specification) := by
    intro specification body table converted
    have step := more specification body
    have same : second specification body = some table := by
      rw [converted] at step
      generalize second specification body = other at step
      cases step
      rfl
    exact .of_forall fun _ => same
  dsimp only
  cases converted : renderGrid? colors first specification body with
  | none => exact .bot
  | some table =>
    obtain ⟨enough, same⟩ := renderGrid?_approach near colors specification body table converted
    have also : renderGrid? colors second specification body = some table :=
      same enough (Nat.le_refl enough)
    rw [also]
    exact .refl

end Fixpoint

/-- A table of at most a nesting depth. -/
def renderAt? (colors : ColorTable) : (depth : Nat) -> (specification body : Text) -> Option Text
  | 0, _, _ => none
  | depth + 1, specification, body =>
    renderGrid? colors (renderAt? colors depth) specification body

/-- A table that has an output has the same one with more depth. -/
theorem renderAt?_mono {colors : ColorTable} {depth deeper : Nat} (more : depth ≤ deeper)
    {specification body table : Text}
    (converted : renderAt? colors depth specification body = some table) :
    renderAt? colors deeper specification body = some table := by
  induction depth generalizing deeper specification body table with
  | zero => cases converted
  | succ depth inductionHypothesis =>
    obtain ⟨further, rfl⟩ := Nat.exists_eq_add_of_le' more
    have near specification : Approach (fun _ => renderAt? colors (further + depth) specification)
        (renderAt? colors depth specification) := fun body table converted =>
      .of_forall fun _ => inductionHypothesis (Nat.le_add_left depth further) converted
    obtain ⟨enough, same⟩ := renderGrid?_approach near colors specification body table converted
    exact same enough (Nat.le_refl enough)

/-- A table that has an output at some nesting depth has it. -/
theorem render?_of_renderAt? {colors : ColorTable} {depth : Nat} {specification body table : Text}
    (converted : renderAt? colors depth specification body = some table) :
    render? colors specification body = some table := by
  induction depth generalizing specification body table with
  | zero => cases converted
  | succ depth inductionHypothesis =>
    have near specification : Approach (fun _ => render? colors specification)
        (renderAt? colors depth specification) := fun body table converted =>
      .of_forall fun _ => inductionHypothesis converted
    obtain ⟨enough, same⟩ := renderGrid?_approach near colors specification body table converted
    rw [render?]
    exact same enough (Nat.le_refl enough)

/-- The tables of bounded depth come near every table that has an output. -/
theorem renderAt?_approach (colors : ColorTable) (specification : Text) :
    Approach (renderAt? colors · specification) (render? colors specification) := by
  refine render?.partial_correctness colors (fun specification body table => FromSomeDepth
    fun depth => renderAt? colors depth specification body = some table) ?_ specification
  intro table? near specification body table converted
  exact .succ (renderGrid?_approach near colors specification body table converted)

/-- A table has an output exactly if it has one at some nesting depth. -/
theorem render?_eq_some_iff {colors : ColorTable} {specification body table : Text} :
    render? colors specification body = some table ↔
      exists depth, renderAt? colors depth specification body = some table := by
  constructor
  · intro converted
    obtain ⟨enough, deep⟩ := renderAt?_approach colors specification body table converted
    exact ⟨enough, deep enough (Nat.le_refl enough)⟩
  · rintro ⟨depth, converted⟩
    exact render?_of_renderAt? converted

/-- Whether a table comes to an end, with all tables inside it. -/
def comesToEnd (colors : ColorTable) (specification body : Text) : Bool :=
  (render? colors specification body).isSome

/-- A table comes to an end exactly if some nesting depth is enough for it. -/
theorem comesToEnd_iff {colors : ColorTable} {specification body : Text} :
    comesToEnd colors specification body = true ↔
      exists depth table, renderAt? colors depth specification body = some table := by
  simp only [comesToEnd, Option.isSome_iff_exists, render?_eq_some_iff]
  exact exists_comm

/-- A table. One in which tables are found for ever leaves nothing. -/
def render (colors : ColorTable) (specification body : Text) : Text :=
  (render? colors specification body).getD []

/-- What a table is at some nesting depth, it is at all. -/
theorem render_of_renderAt? {colors : ColorTable} {depth : Nat} {specification body table : Text}
    (converted : renderAt? colors depth specification body = some table) :
    render colors specification body = table := by
  rw [render, render?_of_renderAt? converted, Option.getD_some]

/-- A table with an output at some depth can be evaluated there. -/
theorem render_eq_getD {colors : ColorTable} {depth : Nat} {specification body : Text}
    (enough : (renderAt? colors depth specification body).isSome = true) :
    comesToEnd colors specification body = true ∧
      render colors specification body = (renderAt? colors depth specification body).getD [] := by
  obtain ⟨table, converted⟩ := Option.isSome_iff_exists.mp enough
  rw [converted, Option.getD_some]
  exact ⟨comesToEnd_iff.mpr ⟨depth, table, converted⟩, render_of_renderAt? converted⟩

end LatexMarkdown.Table
