import LatexMarkdown.Proofs.CodeLines
import LatexMarkdown.Proofs.PreviewCut

/-!
# What the body of a code block does not change

After the code has been stored, two documents that differ in the body of a code
block are one text, over stores that differ in one fragment. No later pass looks at
more of that fragment than whether it is a block, except for the tables, which put
it back and must come to an end over it.
-/

namespace LatexMarkdown

open Fragment Scan
open Code (verbatimName)
open FragmentStore (isBlock Matched)

/-- Fragments that are both blocks, or both not. -/
abbrev SameKind (first second : Text) : Prop :=
  isBlock first = isBlock second

/-! ## Which fragments are blocks -/

/-- Escaping brings in no line break. -/
theorem not_mem_escapeHtml {text : Text} (single : '\n' ∉ text) : '\n' ∉ Text.escapeHtml text :=
  fun member => single (Document.Inset.mem_of_mem_escapeHtml (by decide) member)

/-- A text without line breaks is no block. -/
theorem isBlock_of_single {text : Text} (single : '\n' ∉ text) : isBlock text = false := by
  rw [isBlock, decide_eq_false_iff_not]
  exact fun start => single (List.mem_of_mem_head? start)

/-- No blank is in a word. -/
theorem Text.isBlank_of_mem_words {text word : Text} (listed : word ∈ words text) {c : Char}
    (member : c ∈ word) : isBlank c = false := by
  have alone {d : Char} (visible : ¬ isBlank d = true) (member : c ∈ [d]) : isBlank c = false := by
    rw [List.mem_singleton.mp member]
    exact Bool.eq_false_iff.mpr visible
  fun_induction words text generalizing word with
  | case1 => simp at listed
  | case2 d rest blank inductionHypothesis => exact inductionHypothesis listed member
  | case3 d visible inductionHypothesis =>
    rcases List.mem_cons.mp listed with rfl | later
    · exact alone visible member
    · exact inductionHypothesis later member
  | case4 d visible next rest blank inductionHypothesis =>
    rcases List.mem_cons.mp listed with rfl | later
    · exact alone visible member
    · exact inductionHypothesis later member
  | case5 d visible next rest _ empty inductionHypothesis =>
    rw [empty, List.mem_singleton] at listed
    exact alone visible (listed ▸ member)
  | case6 d visible next rest _ first later split inductionHypothesis =>
    rw [split] at listed inductionHypothesis
    rcases List.mem_cons.mp listed with rfl | further
    · rcases List.mem_cons.mp member with rfl | inside
      · exact Bool.eq_false_iff.mpr visible
      · exact inductionHypothesis List.mem_cons_self inside
    · exact inductionHypothesis (List.mem_cons_of_mem first further) member

namespace Fragment

/-- A preview has no line breaks. -/
theorem not_mem_preview (limit : Nat) (text : Text) : '\n' ∉ preview limit text := by
  have collapsed : '\n' ∉ Text.collapseBlanks text := by
    rw [← List.singleton_infix_iff, Text.collapseBlanks,
      Text.infix_joinWith_iff (by simp) (by decide) (by simp)]
    rintro ⟨word, listed, occurs⟩
    have blank : Text.isBlank '\n' = false :=
      Text.isBlank_of_mem_words listed ((List.singleton_infix_iff _ _).mp occurs)
    exact absurd blank (by decide)
  rw [preview]
  split
  · exact collapsed
  · rw [List.mem_append, not_or, Text.trimEnd, Text.dropTrailing_eq_rdropWhile]
    refine ⟨fun member => collapsed ?_, by decide⟩
    exact (takeTokens_front ..).subset ((List.rdropWhile_prefix _ _).subset member)

end Fragment

/-- A code block is a block, and in a preview it is not. -/
theorem Code.isBlock_renderBlock (options : Options) (language body : Text) :
    isBlock (renderBlock options language body) = !options.preview := by
  rw [renderBlock]
  cases options.preview with
  | false => rfl
  | true =>
    have dots : '\n' ∉ preview options.verbatimLimit body ++ "...".toList := by
      rw [List.mem_append, not_or]
      exact ⟨not_mem_preview options.verbatimLimit body, by decide⟩
    have single : '\n' ∉ (if Text.endsWith "...".toList (preview options.verbatimLimit body)
        then preview options.verbatimLimit body
        else preview options.verbatimLimit body ++ "...".toList) := by
      split
      · exact not_mem_preview options.verbatimLimit body
      · exact dots
    exact isBlock_of_single (not_mem_escapeHtml single)

/-- A table that comes to an end is a block. -/
theorem Table.isBlock_render {colors : ColorTable} {specification body : Text}
    (ends : comesToEnd colors specification body = true) :
    isBlock (render colors specification body) = true := by
  obtain ⟨table, rendered⟩ := Option.isSome_iff_exists.mp ends
  rw [render, rendered, Option.getD_some]
  rw [render?, renderGrid?, html?_eq, Option.map_eq_some_iff] at rendered
  obtain ⟨rows, -, rfl⟩ := rendered
  rfl

/-! ## Theorem-like environments -/

namespace FragmentStore

/-- Stores with fragments of the same kinds have blocks at the same places. -/
theorem isBlockIndex_of_matched {first second : FragmentStore}
    (matched : first.Matched SameKind second) : first.isBlockIndex = second.isBlockIndex := by
  have kinds : first.fragments.toList.map isBlock = second.fragments.toList.map isBlock := by
    rw [← List.forall₂_eq_eq_eq, List.forall₂_map_left_iff, List.forall₂_map_right_iff]
    exact matched
  have kindAt (store : FragmentStore) (index : Option Nat) :
      store.isBlockIndex index =
        ((index.bind ((store.fragments.toList.map isBlock)[·]?)).getD false) := by
    cases index with
    | none => rfl
    | some index =>
      rw [isBlockIndex, Option.bind_some, Option.bind_some, List.getElem?_map, get?,
        Array.getElem?_toList]
      cases store.fragments[index]? <;> rfl
  funext index
  rw [kindAt, kindAt, kinds]

end FragmentStore

namespace Block

variable {first second : FragmentStore} (same : first.isBlockIndex = second.isBlockIndex)

include same

/-- A theorem-like environment looks only at which fragments are blocks. -/
theorem Theorem.render_congr (environment : Theorem) (options : Options) (title : Option Text)
    (body : Text) :
    environment.render options first title body = environment.render options second title body := by
  have contains : first.containsBlock = second.containsBlock := by
    funext text
    rw [FragmentStore.containsBlock, FragmentStore.containsBlock, same]
  have starts : first.startsWithBlock = second.startsWithBlock := by
    funext text
    rw [FragmentStore.startsWithBlock, FragmentStore.startsWithBlock, same]
  have line : italicizeLine first = italicizeLine second := by
    funext line
    rw [italicizeLine, italicizeLine, isStructural, isStructural, contains]
  have contents : environment.content first = environment.content second := by
    funext body
    rw [content, content, italicize, italicize, line]
  have headings : withHeading first = withHeading second := by
    funext heading content
    rw [withHeading, withHeading, startsWithStructure, startsWithStructure, starts]
  rw [render, render, contents, headings]

/-- The conversion of theorem-like environments looks only at which fragments are
blocks. -/
theorem convertTheorems_congr (options : Options) (defined : KeyedList Text) (text : Text) :
    convertTheorems ⟨options, first, defined⟩ text =
      convertTheorems ⟨options, second, defined⟩ text := by
  have nested (depth : Nat) : convertTheoremsAt ⟨options, first, defined⟩ depth =
      convertTheoremsAt ⟨options, second, defined⟩ depth := by
    induction depth with
    | zero => rfl
    | succ depth inductionHypothesis =>
      funext text
      have rules : theoremRule ⟨options, first, defined⟩ =
          theoremRule ⟨options, second, defined⟩ := by
        funext nested state cursor text
        simp only [theoremRule, Theorem.render_congr same]
      rw [convertTheoremsAt, convertTheoremsAt, inductionHypothesis, rules]
  rw [convertTheorems, nested, convertTheorems]

end Block

/-! ## Tables -/

namespace Table

/-- Move one table into the store, and note whether all tables so far came to an
end. -/
def endingOne (context : TableContext) (family : Family) (state : TableSink × Bool)
    (found : Environment) : (TableSink × Bool) × Option Text :=
  (((protectOne context family state.1 found).1,
      state.2 && endsOne context family state.1 found),
    (protectOne context family state.1 found).2)

/-- Move all tables into the store, and note whether they came to an end. -/
def protectEnding (context : TableContext) (state : TableSink × Bool) (text : Text) :
    (TableSink × Bool) × Text :=
  families.foldl (fun (state, text) family =>
    editEnvironment family.name.toList family.maxOptions family.required
      (endingOne context family) state text) (state, text)

theorem allEnd_eq (context : TableContext) (sink : TableSink) (text : Text) :
    allEnd context sink text = (protectEnding context (sink, true) text).1.2 :=
  rfl

/-- To note the ends changes nothing about the tables. -/
theorem protectEnding_eq (context : TableContext) (state : TableSink × Bool) (text : Text) :
    (protectEnding context state text).1.1 = (protect context state.1 text).1 ∧
      (protectEnding context state text).2 = (protect context state.1 text).2 := by
  have answers (family : Family) : Agrees (fun (state : TableSink × Bool) sink => state.1 = sink)
      (endingOne context family) (protectOne context family) := by
    rintro state _ found rfl
    exact ⟨rfl, rfl⟩
  exact foldl_agrees (fun family => (Editor.environment ..).agrees (answers family)) families
    state state.1 text rfl

/-- What two runs over the tables have in common: the same reports, stores of one
size, and fragments of the same kinds as long as all tables came to an end. -/
structure EndingAlike (first second : TableSink × Bool) : Prop where
  warnings : first.1.warnings = second.1.warnings
  size : first.1.store.size = second.1.store.size
  matched : first.2 = true → second.2 = true → first.1.store.Matched SameKind second.1.store

/-- What is stored next keeps this in common, when it is of the same kind if both
runs came to an end so far. -/
theorem EndingAlike.push {first second : TableSink × Bool} (alike : EndingAlike first second)
    {ends alsoEnds : Bool} {table other : Text} (warnings : List Warning)
    (kinds : ends = true → alsoEnds = true → SameKind table other) :
    EndingAlike (⟨warnings, (first.1.store.push table).1⟩, first.2 && ends)
      (⟨warnings, (second.1.store.push other).1⟩, second.2 && alsoEnds) where
  warnings := rfl
  size := by simp [FragmentStore.size, FragmentStore.push] at *; exact alike.size
  matched := by
    intro ended alsoEnded
    rw [Bool.and_eq_true] at ended alsoEnded
    exact (alike.matched ended.1 alsoEnded.1).push (kinds ended.2 alsoEnded.2)

/-- Two runs over the tables keep in common what they have in common. -/
theorem endingOne_agrees (context : TableContext) (family : Family) :
    Agrees EndingAlike (endingOne context family) (endingOne context family) := by
  intro first second found alike
  have tokens (table other : Text) :
      (first.1.store.push table).2 = (second.1.store.push other).2 :=
    congrArg Fragment.token alike.size
  cases preview : context.preview with
  | true =>
    have pushed (sink : TableSink) : protectOne context family sink found =
        (⟨sink.warnings, (sink.store.push tablePreview).1⟩, some (sink.store.push tablePreview).2) := by
      rw [protectOne, if_pos preview]
    simp only [endingOne, pushed, alike.warnings]
    exact ⟨alike.push _ fun _ _ => rfl, congrArg some (tokens ..)⟩
  | false =>
    have full : ¬ context.preview = true := by rw [preview]; exact Bool.false_ne_true
    let resolved (sink : TableSink) := Numbering.resolveReferences context.labels context.citations
      sink.warnings found.body
    let table (sink : TableSink) := render context.colors (family.specification found)
      (sink.store.restore (resolved sink).2)
    have pushed (sink : TableSink) : protectOne context family sink found =
        (⟨(resolved sink).1, (sink.store.push (table sink)).1⟩,
          some (sink.store.push (table sink)).2) := by
      rw [protectOne, if_neg full]
    have same : resolved first.1 = resolved second.1 := by simp only [resolved, alike.warnings]
    have ended (sink : TableSink) (ends : endsOne context family sink found = true) :
        isBlock (table sink) = true := by
      simp only [endsOne, preview, Bool.false_or] at ends
      exact isBlock_render ends
    simp only [endingOne, pushed, same]
    exact ⟨alike.push _ fun ends alsoEnds => (ended _ ends).trans (ended _ alsoEnds).symm,
      congrArg some (tokens ..)⟩

/-- Tables are stored in agreement when they come to an end. -/
theorem protect_agrees {context : TableContext} {first second : TableSink} {text : Text}
    (warnings : first.warnings = second.warnings)
    (matched : first.store.Matched SameKind second.store)
    (ends : allEnd context first text = true) (alsoEnds : allEnd context second text = true) :
    (protect context first text).1.warnings = (protect context second text).1.warnings ∧
      (protect context first text).1.store.Matched SameKind
        (protect context second text).1.store ∧
      (protect context first text).2 = (protect context second text).2 := by
  have start : EndingAlike (first, true) (second, true) :=
    ⟨warnings, matched.size_eq, fun _ _ => matched⟩
  have agrees : Agrees EndingAlike (protectEnding context) (protectEnding context) :=
    foldl_agrees (fun family => (Editor.environment ..).agrees (endingOne_agrees context family))
      families
  obtain ⟨alike, written⟩ := agrees _ _ text start
  rw [allEnd_eq] at ends alsoEnds
  have reached := alike.matched ends alsoEnds
  have warned := alike.warnings
  rw [(protectEnding_eq ..).1, (protectEnding_eq ..).1] at reached warned
  rw [(protectEnding_eq ..).2, (protectEnding_eq ..).2] at written
  exact ⟨warned, reached, written⟩

end Table

namespace Document

/-! ## Passes -/

/-- States that differ at most in fragments of the same kinds. -/
abbrev State.SameButCode : State → State → Prop :=
  State.Alike Eq SameKind

/-- Such states are one state over two stores. -/
theorem State.SameButCode.exists_store {first second : State}
    (alike : State.SameButCode first second) :
    ∃ store, first.store.Matched SameKind store ∧
      second = first.withStore first.options store := by
  refine ⟨second.store, alike.matched, ?_⟩
  rw [alike.options]
  exact alike.same.symm

/-- A pass that puts no fragment back keeps such states, unless it is the storing of
code or of tables. -/
theorem Pass.run_sameButCode {pass : Pass} (uncoded : pass ≠ .protectCode)
    (untabled : pass ≠ .protectTables) (unrestored : pass ≠ .restoreFragments) :
    Agrees State.SameButCode pass.run pass.run := by
  by_cases looks : pass ∈ storePasses
  · intro first second text alike
    obtain ⟨store, matched, rfl⟩ := alike.exists_store
    have reflexive (text : Text) : SameKind text text := rfl
    cases pass with
    | expandTitle => exact ⟨alike, rfl⟩
    | protectLinks =>
      exact keepStore_alike alike (Link.protect_agrees reflexive _ _ _ text matched)
    | protectArrays =>
      exact keepStore_alike alike (Table.protectArrays_agrees reflexive _ _ _ _ text matched)
    | protectFormulas =>
      exact keepStore_alike alike (Math.protect_agrees reflexive _ _ _ _ _ text matched)
    | convertTheorems =>
      have blocks := FragmentStore.isBlockIndex_of_matched matched
      exact ⟨alike, Block.convertTheorems_congr blocks _ _ text⟩
    | protectCode => exact absurd rfl uncoded
    | protectTables => exact absurd rfl untabled
    | restoreFragments => exact absurd rfl unrestored
    | _ => exact absurd looks (by decide)
  · exact run_alike looks

/-- Storing tables keeps such states when all tables come to an end. -/
theorem protectTables_sameButCode {first second : State} (alike : State.SameButCode first second)
    {text : Text}
    (ends : Table.allEnd first.tableContext ⟨first.warnings, first.store⟩ text = true)
    (alsoEnds : Table.allEnd second.tableContext ⟨second.warnings, second.store⟩ text = true) :
    State.SameButCode (Pass.protectTables.run first text).1 (Pass.protectTables.run second text).1 ∧
      (Pass.protectTables.run first text).2 = (Pass.protectTables.run second text).2 := by
  have stored (state : State) : Pass.protectTables.run state text =
      ({ state with
          warnings := (Table.protect state.tableContext ⟨state.warnings, state.store⟩ text).1.warnings,
          store := (Table.protect state.tableContext ⟨state.warnings, state.store⟩ text).1.store },
        (Table.protect state.tableContext ⟨state.warnings, state.store⟩ text).2) := by
    simp only [Pass.run]
  obtain ⟨store, matched, rfl⟩ := alike.exists_store
  have context : (first.withStore first.options store).tableContext = first.tableContext := rfl
  have agrees := @Table.protect_agrees first.tableContext ⟨first.warnings, first.store⟩
    ⟨first.warnings, store⟩ text rfl matched ends alsoEnds
  rw [stored, stored, context]
  simp only [State.withStore]
  generalize Table.protect first.tableContext ⟨first.warnings, first.store⟩ text = one at agrees ⊢
  generalize Table.protect first.tableContext ⟨first.warnings, store⟩ text = other at agrees ⊢
  obtain ⟨warned, reached, written⟩ := agrees
  refine ⟨⟨rfl, reached, ?_⟩, written⟩
  rw [State.withStore, warned]

/-! ## The whole conversion -/

end Document

namespace Code

/-- Storing code writes the same and leaves fragments of the same kinds whatever the
body of a block is. -/
theorem protect_enclosed (options : Options) {before body twin : Text} (isSealed : IsSealed body)
    (twinSealed : IsSealed twin) (unescaped : (Cursor.start.advanceOver before).escaped = false)
    (after : Text) :
    (protect options .empty (before ++ (enclosed verbatimName body ++ after))).1.Matched SameKind
        (protect options .empty (before ++ (enclosed verbatimName twin ++ after))).1 ∧
      (protect options .empty (before ++ (enclosed verbatimName body ++ after))).2 =
        (protect options .empty (before ++ (enclosed verbatimName twin ++ after))).2 := by
  have indifferent : Indifferent (Matched SameKind)
      (FragmentStore.storing (fun found : Environment => renderBlock options [] found.body)
        fun _ token => some token)
      (FragmentStore.storing (fun found : Environment => renderBlock options [] found.body)
        fun _ token => some token) := by
    intro store other found twin matched
    refine ⟨matched.push ?_, _, rfl, congrArg some (matched.token_eq _ _).symm⟩
    rw [SameKind, isBlock_renderBlock, isBlock_renderBlock]
  obtain ⟨matched, written⟩ := editFrom_enclosed indifferent (by decide : '\\' ∉ verbatimName)
    isSealed twinSealed Matched.empty rfl unescaped after
  have split : stages options =
      blockStage options (families.attach.head (by decide)) :: (stages options).tail := rfl
  have later : Agrees (Matched SameKind) (Scan.Stage.runAll (stages options).tail)
      (Scan.Stage.runAll (stages options).tail) := by
    have stages : List.Forall₂ (fun one other => Agrees (Matched SameKind) one.run other.run)
        (stages options) (stages options) := stages_agree (fun _ _ => rfl) fun _ => rfl
    rw [split] at stages
    cases stages with
    | cons _ others => exact Scan.Stage.runAll_agrees others
  rw [protect_eq, protect_eq, split, Scan.Stage.runAll, Scan.Stage.runAll]
  have first (text : Text) : (blockStage options (families.attach.head (by decide))).run .empty text =
      editFrom (environmentRule verbatimName 0 0
        (FragmentStore.storing (fun found : Environment => renderBlock options [] found.body)
          fun _ token => some token)) .empty Cursor.start 0 text := rfl
  rw [first, first, ← written]
  exact later _ _ _ matched

end Code

namespace Document

/-- A document with a code block. -/
def around (before body after : Text) : Text :=
  before ++ (enclosed verbatimName body ++ after)

/-- A document with a code block is not blank. -/
theorem isBlankText_around (before body after : Text) :
    Text.isBlankText (around before body after) = false := by
  have marked : '\\' ∈ around before body after := by
    simp [around, enclosed, beginMarker_eq]
  rw [Text.isBlankText, List.all_eq_false]
  exact ⟨'\\', marked, by decide⟩

/-- These passes keep states that differ in code. -/
theorem runPasses_sameButCode {passes : List Pass} (free : ∀ pass ∈ passes,
    pass ≠ .protectCode ∧ pass ≠ .protectTables ∧ pass ≠ .restoreFragments) :
    Agrees State.SameButCode (runPasses passes) (runPasses passes) :=
  runPasses_agrees fun pass listed => Pass.run_sameButCode (free pass listed).1
    (free pass listed).2.1 (free pass listed).2.2

/-- Whether the tables of a document come to an end once its code is stored. -/
def tablesEnd (coded : State × Text) : Bool :=
  let (state, text) := runPasses earlyPasses coded.1 coded.2
  Table.allEnd state.tableContext ⟨state.warnings, state.store⟩ text

theorem comesToEnd_eq {source : Text} (visible : Text.isBlankText source = false)
    (options : Options) :
    comesToEnd options source = tablesEnd (runPasses codePasses (.start options) source) := by
  have early : conversionPasses.takeWhile (· ≠ .protectTables) = codePasses ++ earlyPasses := rfl
  rw [comesToEnd, visible, early, runPasses_append, tablesEnd]
  simp only [Bool.false_eq_true, if_false]

/-- States that differ in code differ in nothing else at the restoration, if all
tables come to an end. -/
theorem runPasses_middle_sameButCode {first second : State}
    (alike : State.SameButCode first second) {text : Text}
    (ends : tablesEnd (first, text) = true) (alsoEnds : tablesEnd (second, text) = true) :
    State.SameButCode (runPasses middlePasses first text).1
      (runPasses middlePasses second text).1 := by
  have early : ∀ pass ∈ earlyPasses,
      pass ≠ .protectCode ∧ pass ≠ .protectTables ∧ pass ≠ .restoreFragments := by decide
  have late : ∀ pass ∈ latePasses,
      pass ≠ .protectCode ∧ pass ≠ .protectTables ∧ pass ≠ .restoreFragments := by decide
  obtain ⟨reached, written⟩ := runPasses_sameButCode early first second text alike
  rw [tablesEnd] at ends alsoEnds
  rw [middlePasses_eq, runPasses_append, runPasses_append, ← written]
  simp only at ends alsoEnds
  rw [← written] at alsoEnds
  obtain ⟨stored, same⟩ := protectTables_sameButCode reached ends alsoEnds
  simp only [runPasses]
  rw [← same]
  exact (runPasses_sameButCode late _ _ _ stored).1

section Around

variable {options : Options} {before first second after : Text}
  (unfenced : ∀ fence ∈ Code.fences, ¬ fence.1 <:+: before)
  (unnamed : ¬ endMarker verbatimName <:+: Text.lastLine before)
  (unescaped : (Cursor.start.advanceOver (Code.keepLastLine before)).escaped = false)
  (firstSealed : IsSealed first) (secondSealed : IsSealed second)

include unfenced unnamed unescaped firstSealed secondSealed

/-- Once code is stored, the body of a block is in the store only. -/
theorem runPasses_code_around :
    State.SameButCode (runPasses codePasses (.start options) (around before first after)).1
        (runPasses codePasses (.start options) (around before second after)).1 ∧
      (runPasses codePasses (.start options) (around before first after)).2 =
        (runPasses codePasses (.start options) (around before second after)).2 := by
  have start : State.SameButCode (.start options) (.start options) := ⟨rfl, .empty, rfl⟩
  have neutral (body : Text) (isSealed : IsSealed body) :
      Fragment.neutralize (Code.stripComments (around before body after)) =
        Fragment.neutralize (Code.keepLastLine before) ++
          (enclosed verbatimName (Fragment.neutralize body) ++
            Fragment.neutralize (Code.keepFirstLine after)) := by
    rw [around, Code.stripComments_enclosed unfenced unnamed isSealed,
      Fragment.neutralize_enclosed (by decide)]
  have clear : (Cursor.start.advanceOver
      (Fragment.neutralize (Code.keepLastLine before))).escaped = false :=
    (Fragment.advanceOver_neutralize ..).trans unescaped
  simp only [codePasses, runPasses, Pass.run]
  rw [neutral first firstSealed, neutral second secondSealed]
  exact keepStore_alike start (Code.protect_enclosed options
    (Fragment.isSealed_neutralize firstSealed) (Fragment.isSealed_neutralize secondSealed) clear _)

/-- The body of a code block changes nothing of what a document declares and of what
is reported about it, if the end of the block is not named before it in its line, no
backslash that is left of the text before it escapes it, and all tables come to an
end. -/
theorem convert_around (ends : comesToEnd options (around before first after) = true)
    (alsoEnds : comesToEnd options (around before second after) = true) :
    (convert options (around before first after)).metadata =
        (convert options (around before second after)).metadata ∧
      (convert options (around before first after)).labels =
        (convert options (around before second after)).labels ∧
      (convert options (around before first after)).citations =
        (convert options (around before second after)).citations ∧
      (convert options (around before first after)).warnings =
        (convert options (around before second after)).warnings := by
  rw [comesToEnd_eq (isBlankText_around ..)] at ends alsoEnds
  have coded := @runPasses_code_around options before first second after unfenced unnamed unescaped
    firstSealed secondSealed
  have reached (body : Text) : (run options (around before body after)).1 =
      (runPasses middlePasses (runPasses codePasses (.start options) (around before body after)).1
        (runPasses codePasses (.start options) (around before body after)).2).1 := by
    rw [run_eq, beforeRestoration, isBlankText_around, ← runPasses_append]
    simp only [Bool.false_eq_true, if_false]
  simp only [convert, reached]
  generalize runPasses codePasses (.start options) (around before first after) = one at *
  generalize runPasses codePasses (.start options) (around before second after) = other at *
  obtain ⟨alike, written⟩ := coded
  rw [← written]
  have same := (runPasses_middle_sameButCode alike ends (written ▸ alsoEnds)).same
  rw [← same]
  simp only [State.withStore, and_self]

end Around

/-- A label and a percent sign in a block before a reference go unnoticed. -/
theorem convert_around_labels :
    let before := "a%b\n".toList
    let body := "\\label\x7bb\x7d%".toList
    let after := "\\ref\x7bb\x7d".toList
    (¬ endMarker verbatimName <:+: Text.lastLine before ∧
      (Cursor.start.advanceOver (Code.keepLastLine before)).escaped = false ∧
      comesToEnd .standard (around before body after) = true) ∧
      (convert .standard (around before body after)).labels =
        (convert .standard (around before [] after)).labels ∧
      (convert .standard (around before body after)).warnings =
        (convert .standard (around before [] after)).warnings := by
  intro before body after
  have unfenced : ∀ fence ∈ Code.fences, ¬ fence.1 <:+: before := by decide
  have unnamed : ¬ endMarker verbatimName <:+: Text.lastLine before := by decide
  have unescaped : (Cursor.start.advanceOver (Code.keepLastLine before)).escaped = false := by
    decide
  have isSealed : IsSealed body := ⟨by decide, by decide⟩
  have emptySealed : IsSealed [] := ⟨by decide, by decide⟩
  obtain ⟨ends, alsoEnds⟩ : comesToEnd .standard (around before body after) = true ∧
      comesToEnd .standard (around before [] after) = true := by decide +kernel
  have same := convert_around unfenced unnamed unescaped isSealed emptySealed ends alsoEnds
  exact ⟨⟨unnamed, unescaped, ends⟩, same.2.1, same.2.2.2⟩

/-- Where the end of a block is named before it in its line, a percent sign in the
block takes its end for a comment. -/
theorem convert_around_named :
    let before := "\\verb|\\end\x7bverbatim\x7d|".toList
    (∀ fence ∈ Code.fences, ¬ fence.1 <:+: before) ∧
      (Cursor.start.advanceOver before).escaped = false ∧
      IsSealed "\n50%".toList ∧ IsSealed "\n50".toList ∧
      (convert .standard (around before "\n50%".toList [])).warnings ≠
        (convert .standard (around before "\n50".toList [])).warnings := by
  intro before
  obtain ⟨kept, lost⟩ : (convert .standard (around before "\n50".toList [])).warnings = [] ∧
      (convert .standard (around before "\n50%".toList [])).warnings =
        [.about .unknownEnvironment verbatimName] := by decide +kernel
  refine ⟨by decide, by decide, ⟨by decide, by decide⟩, ⟨by decide, by decide⟩, ?_⟩
  rw [kept, lost]
  exact List.cons_ne_nil _ _

end Document

end LatexMarkdown
