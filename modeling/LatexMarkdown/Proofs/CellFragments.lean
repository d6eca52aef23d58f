import LatexMarkdown.Proofs.Isolation
import LatexMarkdown.Proofs.NestedTable
import LatexMarkdown.Proofs.EscapedPasses
import LatexMarkdown.Proofs.PlainTable

/-!
# Links and code in a cell

A link or code that is the only content of a cell is stored before the table is
read, and comes back before the table is divided into rows and cells. What the
table shows is therefore the table of the restored fragment. It is the fragment
itself if nothing in the fragment divides a row or is normalized.
-/

namespace LatexMarkdown

open Scan

namespace Document

open Table

/-! ## The run behind the storing -/

/-- A table whose only cell is the token of the first fragment. -/
def tokenTable : Text :=
  nestedTable "l".toList (Fragment.token 0)

/-- The state in which only one fragment is stored. -/
def storing (fragment : Text) : State :=
  { State.start .standard with store := ⟨#[fragment]⟩ }

/-- The token of the table. -/
def tableToken : Text :=
  Fragment.token 1

theorem tableToken_plain : '\\' ∉ tableToken := by
  decide

/-- Where the first kind of tables leaves only a token, there is no other. -/
theorem protect_of_first {context : TableContext} {sink next : TableSink} {text token : Text}
    (first : editEnvironment "tabular".toList 1 1 (protectOne context ⟨"tabular", 1, 1⟩) sink text =
      (next, token)) (plain : '\\' ∉ token) : protect context sink text = (next, token) := by
  rw [protect, families, List.foldl_cons]
  simp only [first]
  exact foldl_fixed_of_mem _ fun _ _ => editEnvironment_of_plain plain ..

/-- The fragment comes back before its table is converted. -/
theorem protect_tokenTable (fragment : Text) {context : TableContext} (shown : context.preview = false) :
    protect context ⟨[], ⟨#[fragment]⟩⟩ tokenTable =
      (⟨[], ⟨#[fragment, render context.colors "l".toList fragment]⟩⟩, tableToken) := by
  let plain : Family := ⟨"tabular", 1, 1⟩
  have found : (readEnvironment "tabular".toList 1 1 .start tokenTable).map
      (fun reading => (plain.specification reading.1, reading.1.body, reading.2)) =
        some ("l".toList, Fragment.token 0, []) := by decide
  simp only [Option.map_eq_some_iff, Prod.mk.injEq, Prod.exists] at found
  obtain ⟨environment, -, read, specification, body, rfl⟩ := found
  have bare : '\\' ∉ Fragment.token 0 := by decide
  have restored : FragmentStore.restore ⟨#[fragment]⟩ (Fragment.token 0) = fragment :=
    FragmentStore.restore_single rfl
  have answered : protectOne context plain ⟨[], ⟨#[fragment]⟩⟩ environment =
      (⟨[], ⟨#[fragment, render context.colors "l".toList fragment]⟩⟩, some tableToken) := by
    simp only [protectOne, shown, Bool.false_eq_true, if_false, specification, body,
      Numbering.resolveReferences_of_escaped (.of_plain bare), restored]
    rfl
  exact protect_of_first (editEnvironment_whole read answered) tableToken_plain

/-- Behind the tables only the token of the table is left. -/
theorem run_tableToken (fragment table : Text) :
    runPasses (latePasses ++ lastPasses)
      { storing fragment with store := ⟨#[fragment, table]⟩ } tableToken =
      ({ storing fragment with store := ⟨#[fragment, table]⟩ }, Text.finishLayout table) := by
  have escaped : Escaped ['$'] tableToken := by decide
  have tidy : Text.Tidy tableToken := ⟨by decide, by decide, by decide, by decide, by decide⟩
  have unpunctuated : ∀ sign ∈ "?!`'-~".toList, sign ∉ tableToken := by decide
  have restored : FragmentStore.restore ⟨#[fragment, table]⟩ tableToken = table :=
    FragmentStore.restore_single rfl
  have late : latePasses = [Pass.protectArrays, .protectFormulas, .resolveReferences] ++
      structurePasses ++ [Pass.normalizeSymbols, .normalizeBlanks] := rfl
  simp only [late, lastPasses, runPasses_append, runPasses, Pass.run, State.keepStore,
    Table.protectArrays_of_escaped escaped, Math.protect_of_escaped escaped,
    Numbering.resolveReferences_of_escaped escaped,
    structure_of_escaped escaped tidy.stripIndentation_eq,
    Symbol.normalize_of_unsigned escaped unpunctuated, tidy.normalizeBlanks_eq, restored]

/-- The passes that store what stands in the cell. -/
def storingPasses : List Pass :=
  codePasses ++ preamblePasses ++ [.numberKeys, .protectLinks]

/-- If a source becomes the table with the token, the document shows the table of
the fragment. -/
theorem convert_of_stored {source fragment : Text} (visible : Text.isBlankText source = false)
    (stored : runPasses storingPasses (.start .standard) source = (storing fragment, tokenTable)) :
    (convert .standard source).output =
      Text.finishLayout (render .empty "l".toList fragment) := by
  have split : conversionPasses =
      storingPasses ++ .protectTables :: (latePasses ++ lastPasses) := rfl
  have table : Pass.protectTables.run (storing fragment) tokenTable =
      ({ storing fragment with
        store := ⟨#[fragment, render .empty "l".toList fragment]⟩ }, tableToken) := by
    have shown : (storing fragment).tableContext.preview = false := rfl
    have protection := protect_tokenTable fragment shown
    simp only [Pass.run, storing, State.start] at protection ⊢
    rw [protection]
    rfl
  rw [convert, run, visible, if_neg Bool.false_ne_true, split, runPasses_append, stored]
  simp only [runPasses, table, run_tableToken]

/-- Where a command is the first one behind a marker, it is replaced. -/
theorem edit_middle {σ : Type} {rule : Rule σ} (starts : rule.StartsAtBackslash) {state next : σ}
    {marker middle after replacement : Text} (named : marker ≠ []) (plain : '\\' ∉ marker)
    (nonempty : middle ≠ [])
    (silent : rule state Cursor.start ('\\' :: (marker ++ (middle ++ after))) = (state, none))
    (offered : ∀ cursor : Cursor, cursor.escaped = false → rule state cursor (middle ++ after) =
      (next, some (Edit.upTo (middle ++ after) after replacement)))
    (later : ∀ cursor, editFrom rule next cursor 0 after = (next, after)) :
    edit rule state ('\\' :: (marker ++ (middle ++ after))) =
      (next, '\\' :: (marker ++ (replacement ++ after))) := by
  have free : ((Cursor.start.advance '\\').advanceOver marker).escaped = false := by
    obtain ⟨others, last, rfl⟩ := (List.eq_nil_or_concat' marker).resolve_left named
    refine Cursor.advanceOver_concat_escaped _ others ?_
    rintro rfl
    exact plain (List.mem_append_right _ List.mem_cons_self)
  rw [edit, editFrom_keep silent, Alternation.editFrom_keepPlain starts plain,
    editFrom_replace nonempty (offered _ free), later]

/-! ## A link in the cell -/

/-- The target of a link: not empty, without blanks, and without the characters
that are not taken as they are. -/
def IsTarget (target : Text) : Prop :=
  target ≠ [] ∧ ∀ c ∈ target, Text.isBlank c = false ∧ c ∉ ['{', '}', '\\', '%', '@']

instance (target : Text) : Decidable (IsTarget target) :=
  inferInstanceAs (Decidable (_ ∧ _))

/-- A table whose only cell is a link. -/
def linkTable (target : Text) : Text :=
  nestedTable "l".toList ("\\url".toList ++ '{' :: (target ++ ['}']))

/-- Commands one after another, each with the text behind it. -/
def spell (pieces : List Text) : Text :=
  pieces.flatMap fun piece => '\\' :: piece

/-- Only what stands behind a backslash is spelled. -/
theorem not_infix_spell {name : Text} (bare : '\\' ∉ name) {pieces : List Text}
    (plain : ∀ piece ∈ pieces, '\\' ∉ piece) (unstarted : ∀ piece ∈ pieces, ¬ name <+: piece) :
    ¬ ('\\' :: name) <:+: spell pieces := by
  induction pieces with
  | nil => exact fun occurs => absurd (List.eq_nil_of_infix_nil occurs) (List.cons_ne_nil _ _)
  | cons piece others inductionHypothesis =>
    rw [List.forall_mem_cons] at plain unstarted
    have later := inductionHypothesis plain.2 unstarted.2
    have here : ¬ ('\\' :: name) <:+: '\\' :: piece := by
      rw [List.infix_cons_iff]
      rintro (start | inside)
      · exact unstarted.1 (List.cons_prefix_cons.mp start).2
      · exact plain.1 (inside.subset List.mem_cons_self)
    cases others with
    | nil => simpa [spell] using here
    | cons next further => exact fun occurs => (infix_append_sign bare occurs).elim here later

theorem linkTable_spelled (target : Text) : linkTable target =
    spell ["begin\x7btabular\x7d\x7bl\x7d".toList, "url\x7b".toList ++ (target ++ ['}']),
      "end\x7btabular\x7d".toList] := by
  rfl

/-- A name that starts no piece of a table with a link. -/
def Unspelled (name : Text) : Prop :=
  '\\' ∉ name ∧ ¬ name <+: "begin\x7btabular\x7d\x7bl\x7d".toList ∧ ¬ name <+: "url\x7b".toList ∧
    ¬ "url\x7b".toList <+: name ∧ ¬ name <+: "end\x7btabular\x7d".toList

instance (name : Text) : Decidable (Unspelled name) :=
  inferInstanceAs (Decidable (_ ∧ _))

/-- Store the target of a link, with its token in the place of the link. -/
def storeLink (store : FragmentStore) (arguments : Arguments) : FragmentStore × Option Text :=
  let target := Text.trim (arguments.argument 0)
  let (store, token) := FragmentStore.push store (Link.renderLink target target)
  (store, some token)

/-- Behind the bare links only those with a text and the images are looked for. -/
theorem protectLinks_of_stored {store next : FragmentStore} {text written : Text}
    (stored : editCommand "url".toList ⟨true, 0, 1⟩ storeLink store text = (next, written))
    (href : ¬ '\\' :: "href".toList <:+: written)
    (image : ¬ '\\' :: "includegraphics".toList <:+: written) (preview : Bool) :
    Link.protect preview store text = (next, written) := by
  have bare : editCommand "url".toList ⟨true, 0, 1⟩ (fun store arguments =>
      let target := Text.trim (arguments.argument 0)
      let (store, token) := FragmentStore.push store (Link.renderLink target target)
      (store, some token)) store text = (next, written) := stored
  simp only [Link.protect, bare, editCommand_of_absent href, editCommand_of_absent image]

section Link

variable {target : Text} (isTarget : IsTarget target)

include isTarget

theorem IsTarget.plain : '\\' ∉ target :=
  fun member => (isTarget.2 _ member).2 (by decide)

theorem IsTarget.not_infix {name : Text} (unspelled : Unspelled name) :
    ¬ ('\\' :: name) <:+: linkTable target := by
  obtain ⟨bare, opening, short, long, closing⟩ := unspelled
  have link := Text.not_prefix_append short long (target ++ ['}'])
  have plain : '\\' ∉ "url\x7b".toList ++ (target ++ ['}']) := by
    have closed : '\\' ∉ "url\x7b".toList := by decide
    simp only [List.mem_append, List.mem_singleton, not_or]
    exact ⟨closed, isTarget.plain, by decide⟩
  rw [linkTable_spelled]
  refine not_infix_spell bare ?_ ?_
  · simp only [List.forall_mem_cons, List.not_mem_nil, false_imp_iff, implies_true, and_true]
    exact ⟨by decide, plain, by decide⟩
  · simp only [List.forall_mem_cons, List.not_mem_nil, false_imp_iff, implies_true, and_true]
    exact ⟨opening, link, closing⟩

theorem IsTarget.lacks {names : List Text} (unspelled : ∀ name ∈ names, Unspelled name) :
    Lacks names (linkTable target) :=
  fun name listed => isTarget.not_infix (unspelled name listed)

theorem IsTarget.not_mem {c : Char} (foreign : c = '%' ∨ c = '@') : c ∉ linkTable target := by
  have inside : c ∉ target := by
    intro member
    have excluded := (isTarget.2 c member).2
    rcases foreign with rfl | rfl <;> exact excluded (by decide)
  have around : c ≠ '\\' ∧ c ∉ "begin\x7btabular\x7d\x7bl\x7d".toList ∧ c ∉ "url\x7b".toList ∧ c ∉ ['}'] ∧
      c ∉ "end\x7btabular\x7d".toList := by
    rcases foreign with rfl | rfl <;> decide
  obtain ⟨sign, opening, command, brace, closing⟩ := around
  rw [linkTable_spelled]
  intro member
  obtain ⟨piece, listed, here⟩ := List.mem_flatMap.mp member
  have behind := (List.mem_cons.mp here).resolve_left sign
  simp only [List.mem_cons, List.not_mem_nil, or_false] at listed
  rcases listed with rfl | rfl | rfl
  · exact opening behind
  · rw [List.mem_append, List.mem_append] at behind
    exact behind.elim command (Or.elim · inside brace)
  · exact closing behind

/-- A target stands in its braces up to the closing one. -/
theorem IsTarget.readBraced_eq (after : Text) :
    readBraced ('{' :: (target ++ '}' :: after)) = some (target, after) := by
  have general : ∀ text : Text, (∀ c ∈ text, c ∉ ['{', '}', '\\', '%', '@']) →
      readBracedRest 0 false (text ++ '}' :: after) = some (text, after) := by
    intro text
    induction text with
    | nil => exact fun _ => rfl
    | cons c others inductionHypothesis =>
      intro free
      rw [List.forall_mem_cons] at free
      have plain := free.1
      simp only [List.mem_cons, not_or] at plain
      rw [List.cons_append, readBracedRest, if_neg plain.2.2.1, if_neg plain.1, if_neg plain.2.1,
        inductionHypothesis free.2]
      rfl
  exact general target fun c member => (isTarget.2 c member).2

theorem IsTarget.trim_eq : Text.trim target = target :=
  Text.trim_of_visible (fun c head => (isTarget.2 c (List.mem_of_head? head)).1)
    (fun c last => (isTarget.2 c (List.mem_of_getLast? last)).1)

/-- The link is moved into the store. -/
theorem IsTarget.editCommand_eq :
    editCommand "url".toList ⟨true, 0, 1⟩ storeLink .empty (linkTable target) =
      (⟨#[Link.renderLink target target]⟩, tokenTable) := by
  let marker := "begin\x7btabular\x7d\x7bl\x7d".toList
  let middle := "\\url".toList ++ '{' :: (target ++ ['}'])
  have named : marker ≠ [] := by decide
  have plain : '\\' ∉ marker := by decide
  obtain ⟨depth, long⟩ : ∃ depth, (linkTable target).length = depth + 1 := ⟨_, rfl⟩
  have spelled : linkTable target = '\\' :: (marker ++ (middle ++ endMarker tabular)) := rfl
  have written : tokenTable = '\\' :: (marker ++ (Fragment.token 0 ++ endMarker tabular)) := by decide
  rw [editCommand, long, spelled, written]
  refine edit_middle (commandRule_startsAtBackslash _ _ _ _) named plain
    (List.cons_ne_nil _ _) ?_ (fun cursor free => ?_) (fun cursor => ?_)
  · refine commandRule_startsAt _ _ _ _ _ _ _ fun start => ?_
    exact Text.not_prefix_append (by decide) (by decide) _ (List.cons_prefix_cons.mp start).2
  · have shape : middle ++ endMarker tabular =
        '\\' :: ("url".toList ++ '{' :: (target ++ '}' :: endMarker tabular)) := by
      simp only [middle, List.append_assoc, List.cons_append, List.nil_append]
      rfl
    have command : afterCommand? "url".toList (middle ++ endMarker tabular) =
        some ('{' :: (target ++ '}' :: endMarker tabular)) := by
      rw [shape, afterCommand?, if_pos rfl, Text.dropFront?_append]
      rfl
    have arguments : readArguments ⟨true, 0, 1⟩ ('{' :: (target ++ '}' :: endMarker tabular)) =
        some (⟨false, [], [target]⟩, endMarker tabular) :=
      readArguments_of_braced (isTarget.readBraced_eq _) true 0
    have inner (state : FragmentStore) : mapThread (editCommandAt "url".toList ⟨true, 0, 1⟩
        storeLink depth) state [target] = (state, [target]) := by
      simp only [mapThread, editCommandAt_of_plain isTarget.plain]
    have answered : storeLink .empty ⟨false, [], [target]⟩ =
        (⟨#[Link.renderLink target target]⟩, some (Fragment.token 0)) := by
      have argument : (⟨false, [], [target]⟩ : Arguments).argument 0 = target := rfl
      simp only [storeLink, argument, isTarget.trim_eq]
      rfl
    simp only [commandRule, free, command, arguments, inner, answered, byAnswer_some]
    rfl
  · exact editFrom_of_silent_within (fun cursor suffix within _ =>
      commandRule_startsAt _ _ _ _ _ _ _ fun start =>
        absurd (start.isInfix.trans within.isInfix) (by decide)) cursor

/-- The pass for links stores the link. -/
theorem IsTarget.protect_eq : Link.protect false .empty (linkTable target) =
    (⟨#[Link.renderLink target target]⟩, tokenTable) :=
  protectLinks_of_stored isTarget.editCommand_eq (by decide) (by decide) false

/-- The link is stored, and nothing else is done to the table before. -/
theorem IsTarget.stored : runPasses storingPasses (.start .standard) (linkTable target) =
    (storing (Link.renderLink target target), tokenTable) := by
  have code : Lacks Code.names (linkTable target) := isTarget.lacks (by decide +kernel)
  have preamble : Lacks preambleNames (linkTable target) := isTarget.lacks (by decide +kernel)
  have neutral : Fragment.neutralize (linkTable target) = linkTable target :=
    replaceAll_of_absent (Text.not_infix_of_not_mem (isTarget.not_mem (.inr rfl))) _
  have numbered : (State.start .standard).number (linkTable target) = .start .standard :=
    State.number_of_lacks preamble _
  have links : Link.protect (State.start .standard).options.preview (State.start .standard).store
      (linkTable target) = (⟨#[Link.renderLink target target]⟩, tokenTable) := isTarget.protect_eq
  simp only [storingPasses, codePasses, runPasses_append, preamble_of_lacks preamble, runPasses,
    Pass.run, Code.stripComments_of_absent (isTarget.not_mem (.inl rfl)), neutral,
    Code.protect_of_lacks code, State.keepStore, numbered, links]
  rfl

end Link

/-! ## Code in the cell -/

/-- A table whose only cell is code. -/
def codeTable (code : Text) : Text :=
  nestedTable "l".toList (Inset.code code).source

theorem codeTable_spelled (code : Text) : codeTable code =
    "\\begin\x7btabular\x7d\x7bl\x7d\\verb".toList ++ '|' :: (code ++ '|' :: endMarker tabular) := by
  rw [codeTable, nestedTable, Inset.code_source]
  simp only [List.append_assoc, List.cons_append, List.nil_append]
  rfl

section Code

variable {code : Text} (wellFormed : (Inset.code code).WellFormed)

theorem not_infix_codeTable {pattern : Text} (bar : '|' ∉ pattern)
    (opening : ¬ pattern <:+: "\\begin\x7btabular\x7d\x7bl\x7d\\verb".toList)
    (closing : ¬ pattern <:+: endMarker tabular) (inside : ¬ pattern <:+: code) :
    ¬ pattern <:+: codeTable code := by
  rw [codeTable_spelled]
  exact Text.not_infix_append_cons bar opening (Text.not_infix_append_cons bar inside closing)

include wellFormed

/-- A percent sign in the code is no comment. -/
theorem stripComments_codeTable : Code.stripComments (codeTable code) = codeTable code := by
  have single : '\n' ∉ codeTable code := by
    have closing : '\n' ∉ endMarker tabular := by decide
    rw [codeTable_spelled]
    simp [wellFormed.2.1, closing]
  have nonempty : codeTable code ≠ [] := List.cons_ne_nil _ _
  have unfenced : ∀ fence ∈ Code.fences, ¬ fence.1 <:+: codeTable code := by
    have apart : ∀ fence ∈ Code.fences, '|' ∉ fence.1 ∧
        ¬ fence.1 <:+: "\\begin\x7btabular\x7d\x7bl\x7d\\verb".toList ∧ ¬ fence.1 <:+: endMarker tabular ∧
        Inset.environmentOpening <+: fence.1 := by decide
    intro fence listed
    obtain ⟨bar, opening, closing, starts⟩ := apart fence listed
    exact not_infix_codeTable bar opening closing
      (fun occurs => wellFormed.2.2.2 (starts.isInfix.trans occurs))
  have shape : codeTable code = '\\' :: 'b' :: ("egin\x7btabular\x7d\x7bl\x7d".toList ++
      ((Inset.code code).source ++ endMarker tabular)) := rfl
  have kept : Code.beforeComment 0 (codeTable code) = codeTable code := by
    have first (rest : Text) : Code.beforeComment 0 ('\\' :: 'b' :: rest) =
        '\\' :: 'b' :: Code.beforeComment 0 rest := rfl
    have last : Code.beforeComment 0 (endMarker tabular) = endMarker tabular := by decide
    rw [shape, first, Alternation.beforeComment_append (by decide) (by decide),
      Alternation.beforeComment_code wellFormed.1, last]
  rw [Code.stripComments, Text.linesWithBreaks_of_single single nonempty,
    Code.stripCommentLines_unfenced unfenced, kept]
  exact List.append_nil _

/-- The code is moved into the store. -/
theorem protectCode_codeTable (options : Options) :
    Code.protect options .empty (codeTable code) = (⟨#[Code.renderInline code]⟩, tokenTable) := by
  let marker := "begin\x7btabular\x7d\x7bl\x7d".toList
  have named : marker ≠ [] := by decide
  have plain : '\\' ∉ marker := by decide
  have shape : codeTable code =
      '\\' :: (marker ++ ((Inset.code code).source ++ endMarker tabular)) := rfl
  have written : tokenTable = '\\' :: (marker ++ (Fragment.token 0 ++ endMarker tabular)) := by decide
  have unclosed (cursor : Cursor) (store : FragmentStore) :
      editFrom (Code.inlineRule "verb".toList false Code.storeInline) store cursor 0
        (endMarker tabular) = (store, endMarker tabular) :=
    editFrom_of_silent_within (fun cursor suffix within _ =>
      Code.inlineRule_startsAt _ _ _ _ _ _ fun start =>
        absurd (start.isInfix.trans within.isInfix) (by decide)) cursor
  have inline : Code.editInline "verb".toList false Code.storeInline .empty (codeTable code) =
      (⟨#[Code.renderInline code]⟩, tokenTable) := by
    rw [Code.editInline, shape, written]
    refine edit_middle (Alternation.inlineRule_startsAtBackslash _ _ _) named plain
      (List.cons_ne_nil _ _) ?_ (fun cursor free => ?_) (fun cursor => unclosed cursor _)
    · refine Code.inlineRule_startsAt _ _ _ _ _ _ fun start => ?_
      exact Text.not_prefix_append (by decide) (by decide) _ (List.cons_prefix_cons.mp start).2
    · exact Alternation.inlineRule_source wellFormed free .empty _
  have listing : Code.editInline "lstinline".toList true Code.storeInline
      ⟨#[Code.renderInline code]⟩ tokenTable = (⟨#[Code.renderInline code]⟩, tokenTable) :=
    (Code.inlineRule_startsAt _ _ _).edit_eq (by decide) _
  have apart : ∀ family ∈ Code.families, '|' ∉ beginMarker family.name.toList ∧
      ¬ beginMarker family.name.toList <:+: "\\begin\x7btabular\x7d\x7bl\x7d\\verb".toList ∧
      ¬ beginMarker family.name.toList <:+: endMarker tabular := by decide
  rw [Code.protect, foldl_fixed_of_mem Code.families]
  · simp only [inline, listing]
  · intro family listed
    obtain ⟨bar, opening, closing⟩ := apart family listed
    refine FragmentStore.protectEnvironment_of_absent ?_ ..
    exact not_infix_codeTable bar opening closing fun occurs => wellFormed.2.2.2
      ((Alternation.environmentOpening_starts family.name.toList).isInfix.trans occurs)

/-- The code is stored, and nothing else is done to the table before. -/
theorem codeTable_stored : runPasses storingPasses (.start .standard) (codeTable code) =
    (storing (Code.renderInline code), tokenTable) := by
  have preamble : Lacks preambleNames tokenTable := by decide +kernel
  have neutral : Fragment.neutralize (codeTable code) = codeTable code :=
    replaceAll_of_absent (not_infix_codeTable (by decide) (by decide) (by decide)
      wellFormed.2.2.1) _
  have numbered : (storing (Code.renderInline code)).number tokenTable =
      storing (Code.renderInline code) := State.number_of_lacks preamble _
  have url : ¬ '\\' :: "url".toList <:+: tokenTable := by decide
  have href : ¬ '\\' :: "href".toList <:+: tokenTable := by decide
  have image : ¬ '\\' :: "includegraphics".toList <:+: tokenTable := by decide
  have moved : State.keepStore (.start .standard)
      (Code.protect (State.start .standard).options (State.start .standard).store
        (codeTable code)) = (storing (Code.renderInline code), tokenTable) := by
    have protection := protectCode_codeTable wellFormed (State.start .standard).options
    rw [show (State.start .standard).store = .empty from rfl, protection]
    rfl
  simp only [storingPasses, codePasses, runPasses_append, runPasses, Pass.run,
    stripComments_codeTable wellFormed, neutral, moved, preamble_of_lacks preamble, numbered,
    Link.protect_of_absent url href image]
  rfl

end Code

/-! ## What the cell shows -/

/-- A plain line is the only content of the laid out table exactly if it survives. -/
theorem finishLayout_eq_singleCell_iff {fragment : Text} (plain : IsPlain fragment)
    (trimmed : Text.trim fragment = fragment) (visible : Text.isBlankText fragment = false)
    (single : '\n' ∉ fragment) :
    Text.finishLayout (render .empty "l".toList fragment) = singleCell fragment ↔
      Survives fragment := by
  rw [plain.finishLayout_render visible single, plain.render_eq_singleCell_iff trimmed visible]

section Link

variable {target : Text}

theorem renderLink_eq (target : Text) :
    Link.renderLink target target = '[' :: (target ++ ']' :: '(' :: (target ++ [')'])) := by
  simp [Link.renderLink]

theorem mem_renderLink_iff {c : Char} (foreign : c ∉ "[]()".toList) :
    c ∈ Link.renderLink target target ↔ c ∈ target := by
  have signs : c ≠ '[' ∧ c ≠ ']' ∧ c ≠ '(' ∧ c ≠ ')' := by
    refine ⟨?_, ?_, ?_, ?_⟩ <;> (rintro rfl; exact foreign (by decide))
  simp [renderLink_eq, signs]

/-- A link of a target survives if the target has no separator and no
punctuation. -/
theorem IsTarget.survives_iff (isTarget : IsTarget target) :
    Survives (Link.renderLink target target) ↔
      '&' ∉ target ∧ ∀ entry ∈ Symbol.punctuation, ¬ entry.1 <:+: target := by
  have absent {c : Char} (sign : c ∈ ['{', '}', '\\', '%', '@']) (foreign : c ∉ "[]()".toList) :
      c ∉ Link.renderLink target target := fun member =>
    (isTarget.2 c ((mem_renderLink_iff foreign).mp member)).2 sign
  have commandless := absent (by decide : '\\' ∈ _) (by decide)
  have unbraced := And.intro (absent (by decide : '{' ∈ _) (by decide))
    (absent (by decide : '}' ∈ _) (by decide))
  have divided : splitCells (Link.renderLink target target) = [Link.renderLink target target] ↔
      '&' ∉ target := by
    rw [← mem_renderLink_iff (by decide : '&' ∉ "[]()".toList)]
    refine ⟨fun undivided => ?_, fun joined => cellsFrom_of_plain commandless joined .top false⟩
    have pieces := length_splitCells commandless unbraced
    rw [undivided, List.length_singleton] at pieces
    exact List.count_eq_zero.mp (by omega)
  have apart : ∀ entry ∈ Symbol.punctuation, entry.1 ≠ [] ∧
      '[' ∉ entry.1 ∧ ']' ∉ entry.1 ∧ '(' ∉ entry.1 ∧ ')' ∉ entry.1 := by decide
  have punctuated : ∀ entry ∈ Symbol.punctuation,
      entry.1 <:+: Link.renderLink target target ↔ entry.1 <:+: target := by
    intro entry listed
    obtain ⟨filled, first, second, third, last⟩ := apart entry listed
    rw [renderLink_eq, ← List.nil_append ('[' :: _), Text.infix_append_cons_iff first,
      Text.infix_append_cons_iff second, ← List.nil_append ('(' :: _),
      Text.infix_append_cons_iff third, Text.infix_append_cons_iff last, List.infix_nil]
    simp [filled]
  constructor
  · rintro ⟨undivided, unpunctuated⟩
    exact ⟨divided.mp undivided, fun entry listed occurs =>
      unpunctuated entry listed ((punctuated entry listed).mpr occurs)⟩
  · rintro ⟨joined, unpunctuated⟩
    exact ⟨divided.mpr joined, fun entry listed occurs =>
      unpunctuated entry listed ((punctuated entry listed).mp occurs)⟩

theorem IsTarget.isPlain (isTarget : IsTarget target) (dollarless : '$' ∉ target) :
    IsPlain (Link.renderLink target target) where
  commandless := fun member => isTarget.plain ((mem_renderLink_iff (by decide)).mp member)
  dollarless := fun member => dollarless ((mem_renderLink_iff (by decide)).mp member)
  tokenless := .of_no_at fun member =>
    (isTarget.2 _ ((mem_renderLink_iff (by decide)).mp member)).2 (by decide)

/-- The link of a target in the cell of a table. -/
theorem IsTarget.singleCell_iff (isTarget : IsTarget target) (dollarless : '$' ∉ target) :
    Text.finishLayout (render .empty "l".toList (Link.renderLink target target)) =
        singleCell (Link.renderLink target target) ↔
      '&' ∉ target ∧ ∀ entry ∈ Symbol.punctuation, ¬ entry.1 <:+: target := by
  have ends : (Link.renderLink target target).getLast? = some ')' := by
    simp [renderLink_eq, List.getLast?_cons, List.getLast?_append]
  have trimmed : Text.trim (Link.renderLink target target) = Link.renderLink target target :=
    Text.trim_of_ends rfl ends (by decide : Text.isBlank '[' = false ∧ _)
  have visible : Text.isBlankText (Link.renderLink target target) = false := rfl
  have single : '\n' ∉ Link.renderLink target target := fun member =>
    absurd (isTarget.2 _ ((mem_renderLink_iff (by decide)).mp member)).1 (by decide)
  rw [finishLayout_eq_singleCell_iff (isTarget.isPlain dollarless) trimmed visible single,
    isTarget.survives_iff]

end Link

section Code

variable {code : Text}

theorem mem_of_mem_renderInline {c : Char} (foreign : c ∉ "&amp;&lt;&gt;&quot;".toList)
    (tagless : c ∉ "<code>".toList ∧ c ∉ "</code>".toList) (member : c ∈ Code.renderInline code) :
    c ∈ code := by
  have shape : Code.renderInline code =
      "<code>".toList ++ Text.escapeHtml code ++ "</code>".toList := rfl
  rw [shape, List.mem_append, List.mem_append] at member
  rcases member with (opening | inside) | closing
  · exact absurd opening tagless.1
  · exact Inset.mem_of_mem_escapeHtml foreign inside
  · exact absurd closing tagless.2

theorem isPlain_renderInline (wellFormed : (Inset.code code).WellFormed) (commandless : '\\' ∉ code)
    (dollarless : '$' ∉ code) : IsPlain (Code.renderInline code) where
  commandless := fun member =>
    commandless (mem_of_mem_renderInline (by decide) (by decide) member)
  dollarless := fun member => dollarless (mem_of_mem_renderInline (by decide) (by decide) member)
  tokenless := (Code.tokenFree_renderInline code).mpr (.of_absent wellFormed.2.2.1)

/-- Code without commands and formulas in the cell of a table. -/
theorem singleCell_renderInline_iff (wellFormed : (Inset.code code).WellFormed)
    (commandless : '\\' ∉ code) (dollarless : '$' ∉ code) :
    Text.finishLayout (render .empty "l".toList (Code.renderInline code)) =
        singleCell (Code.renderInline code) ↔
      Survives (Code.renderInline code) := by
  have shape : Code.renderInline code = _ := Inset.code_output code
  have ends : (Code.renderInline code).getLast? = some '>' := by
    rw [shape]
    simp [List.getLast?_cons, List.getLast?_append]
  have trimmed : Text.trim (Code.renderInline code) = Code.renderInline code :=
    Text.trim_of_ends rfl ends (by decide : Text.isBlank '<' = false ∧ _)
  exact finishLayout_eq_singleCell_iff (isPlain_renderInline wellFormed commandless dollarless)
    trimmed rfl wellFormed.output_single

end Code

/-- What is stored for the only cell of a table comes back before the table is
read: the document shows the table of the fragment. For a link that is the link
alone exactly if the target has neither a separator nor punctuation; for code,
exactly if nothing divides the escaped code and nothing in it is replaced. -/
theorem convert_cellFragment (target code : Text) :
    (IsTarget target →
      (convert .standard (linkTable target)).output =
          Text.finishLayout (render .empty "l".toList (Link.renderLink target target)) ∧
        ('$' ∉ target →
          ((convert .standard (linkTable target)).output =
              singleCell (Link.renderLink target target) ↔
            '&' ∉ target ∧ ∀ entry ∈ Symbol.punctuation, ¬ entry.1 <:+: target))) ∧
    ((Inset.code code).WellFormed →
      (convert .standard (codeTable code)).output =
          Text.finishLayout (render .empty "l".toList (Code.renderInline code)) ∧
        ('\\' ∉ code → '$' ∉ code →
          ((convert .standard (codeTable code)).output = singleCell (Code.renderInline code) ↔
            Survives (Code.renderInline code)))) := by
  constructor
  · intro isTarget
    have output := convert_of_stored (rfl : Text.isBlankText (linkTable target) = false)
      isTarget.stored
    exact ⟨output, fun dollarless => output ▸ isTarget.singleCell_iff dollarless⟩
  · intro wellFormed
    have output := convert_of_stored (rfl : Text.isBlankText (codeTable code) = false)
      (codeTable_stored wellFormed)
    exact ⟨output, fun commandless dollarless =>
      output ▸ singleCell_renderInline_iff wellFormed commandless dollarless⟩

/-- A target with neither separators nor punctuation. -/
def plainTarget : Text :=
  "https://a.b/c_d?e=1".toList

/-- Code with braces around its separator. -/
def bracedCode : Text :=
  "x_1 = {y & z}".toList

theorem convert_cellFragment_plain :
    (IsTarget plainTarget ∧ '$' ∉ plainTarget ∧
      (convert .standard (linkTable plainTarget)).output =
        singleCell (Link.renderLink plainTarget plainTarget)) ∧
    (Inset.code bracedCode).WellFormed ∧ '\\' ∉ bracedCode ∧ '$' ∉ bracedCode ∧
      (convert .standard (codeTable bracedCode)).output =
        singleCell (Code.renderInline bracedCode) := by
  have isTarget : IsTarget plainTarget := by decide
  have joined : '&' ∉ plainTarget ∧ ∀ entry ∈ Symbol.punctuation, ¬ entry.1 <:+: plainTarget := by
    decide
  have wellFormed : (Inset.code bracedCode).WellFormed := by decide
  have survives : Survives (Code.renderInline bracedCode) := ⟨by decide, by decide⟩
  obtain ⟨link, inline⟩ := convert_cellFragment plainTarget bracedCode
  exact ⟨⟨isTarget, by decide, ((link isTarget).2 (by decide)).mpr joined⟩,
    wellFormed, by decide, by decide,
    ((inline wellFormed).2 (by decide) (by decide)).mpr survives⟩

/-- The separator of a target divides its link, and the escaped form of a
character in code brings a separator in. -/
theorem convert_cellFragment_divided :
    (IsTarget "a&b".toList ∧ (convert .standard (linkTable "a&b".toList)).output =
        rowTable (writtenUnits "[a".toList ["b](a".toList, "b)".toList]) ∧
      (convert .standard (linkTable "a&b".toList)).output ≠
        singleCell (Link.renderLink "a&b".toList "a&b".toList)) ∧
    (Inset.code "a<b".toList).WellFormed ∧ (convert .standard (codeTable "a<b".toList)).output =
        rowTable (writtenUnits "<code>a".toList ["lt;b</code>".toList]) ∧
      (convert .standard (codeTable "a<b".toList)).output ≠
        singleCell (Code.renderInline "a<b".toList) := by
  have isTarget : IsTarget "a&b".toList := by decide
  have wellFormed : (Inset.code "a<b".toList).WellFormed := by decide
  have link : (convert .standard (linkTable "a&b".toList)).output =
      rowTable (writtenUnits "[a".toList ["b](a".toList, "b)".toList]) := by
    have enough : (renderAt? .empty 1 "l".toList
        (Link.renderLink "a&b".toList "a&b".toList)).isSome = true := by decide +kernel
    rw [convert_of_stored rfl isTarget.stored, (render_eq_getD enough).2]
    decide +kernel
  have code : (convert .standard (codeTable "a<b".toList)).output =
      rowTable (writtenUnits "<code>a".toList ["lt;b</code>".toList]) := by
    have enough : (renderAt? .empty 1 "l".toList
        (Code.renderInline "a<b".toList)).isSome = true := by decide +kernel
    rw [convert_of_stored rfl (codeTable_stored wellFormed), (render_eq_getD enough).2]
    decide +kernel
  have different : rowTable (writtenUnits "[a".toList ["b](a".toList, "b)".toList]) ≠
        singleCell (Link.renderLink "a&b".toList "a&b".toList) ∧
      rowTable (writtenUnits "<code>a".toList ["lt;b</code>".toList]) ≠
        singleCell (Code.renderInline "a<b".toList) := by decide +kernel
  exact ⟨⟨isTarget, link, link ▸ different.1⟩, wellFormed, code, code ▸ different.2⟩

end Document

end LatexMarkdown
