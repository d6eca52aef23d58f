import LatexMarkdown.Proofs.Alternation
import LatexMarkdown.Proofs.Characters
import LatexMarkdown.Proofs.EscapedPasses
import LatexMarkdown.Proofs.Layout
import LatexMarkdown.Proofs.Plain
import LatexMarkdown.Proofs.Protection

/-!
# Storing the insets of a document

Comments and environments are looked for in vain in a document of words and
insets. Then its code is stored, and what is left has no backslash, so that only
the dollars around its formulas are acted on.
-/

namespace LatexMarkdown.Document.Alternation

open Fragment Scan

/-- A character of a word text is a letter or a space. -/
theorem IsWordText.ne {text : Text} (words : IsWordText text) {c sign : Char} (member : c ∈ text)
    (foreign : sign.isAlpha = false ∧ sign ≠ ' ') : c ≠ sign := by
  rintro rfl
  rcases words.1 c member with letter | space
  · rw [foreign.1] at letter
    exact Bool.false_ne_true letter
  · exact foreign.2 space

/-- A word text has no sign that is neither a letter nor a space. -/
theorem IsWordText.not_mem {text : Text} (words : IsWordText text) {sign : Char}
    (foreign : sign.isAlpha = false ∧ sign ≠ ' ') : sign ∉ text :=
  fun member => words.ne member foreign rfl

/-- A pattern that no inset spells, and that has a sign which no text has, is
spelled nowhere in the source. -/
theorem not_infix_source {pattern : Text} {sign : Char} (signed : sign ∈ pattern)
    (foreign : sign.isAlpha = false ∧ sign ≠ ' ' ∧ sign ≠ '\\') (bar : '|' ∉ pattern)
    (dollar : '$' ∉ pattern) {text : Text} (words : IsWordText text)
    {later : List (Inset × Text)}
    (unspelled : ∀ inset ∈ later.map Prod.fst, ¬ pattern <:+: inset.body)
    (texts : ∀ text ∈ later.map Prod.snd, IsWordText text) :
    ¬ pattern <:+: text ++ writeLater Inset.source later := by
  have missing {piece : Text} (absent : sign ∉ piece) : ¬ pattern <:+: piece :=
    fun occurs => absent (occurs.subset signed)
  induction later generalizing text with
  | nil => simpa using missing (words.not_mem ⟨foreign.1, foreign.2.1⟩)
  | cons first others inductionHypothesis =>
    obtain ⟨inset, after⟩ := first
    simp only [List.map_cons, List.forall_mem_cons] at unspelled texts
    have rest := inductionHypothesis texts.1 unspelled.2 texts.2
    have before := words.not_mem ⟨foreign.1, foreign.2.1⟩
    rw [writeLater_cons]
    cases inset with
    | formula body =>
      rw [Inset.source_formula_append]
      exact Text.not_infix_append_cons dollar (missing before)
        (Text.not_infix_append_cons dollar unspelled.1 rest)
    | code body =>
      have opening : sign ∉ text ++ ['\\', 'v', 'e', 'r', 'b'] := by
        rw [List.mem_append, not_or]
        refine ⟨before, ?_⟩
        simp only [List.mem_cons, List.not_mem_nil, or_false, not_or]
        refine ⟨foreign.2.2, ?_, ?_, ?_, ?_⟩
        all_goals
          rintro rfl
          exact absurd foreign.1 (by decide)
      rw [Inset.source_code_append, ← List.append_assoc]
      exact Text.not_infix_append_cons bar (missing opening)
        (Text.not_infix_append_cons bar unspelled.1 rest)

/-- Covered characters are kept with what stands before the comment behind them. -/
theorem beforeComment_covered (covered rest : Text) :
    Code.beforeComment covered.length (covered ++ rest) =
      covered ++ Code.beforeComment 0 rest := by
  induction covered with
  | nil => rfl
  | cons c others inductionHypothesis =>
    exact congrArg (c :: ·) inductionHypothesis

/-- No comment starts in a piece without backslashes and percent signs. -/
theorem beforeComment_append {piece : Text} (plain : '\\' ∉ piece) (percent : '%' ∉ piece)
    (rest : Text) :
    Code.beforeComment 0 (piece ++ rest) = piece ++ Code.beforeComment 0 rest := by
  induction piece with
  | nil => rfl
  | cons c others inductionHypothesis =>
    rw [List.mem_cons, not_or] at plain percent
    rw [List.cons_append, Code.beforeComment, if_neg (Ne.symm plain.1),
      if_neg (Ne.symm percent.1), inductionHypothesis plain.2 percent.2, List.cons_append]

/-- No comment starts inside code. -/
theorem beforeComment_code {body : Text} (bar : '|' ∉ body) (rest : Text) :
    Code.beforeComment 0 ((Inset.code body).source ++ rest) =
      (Inset.code body).source ++ Code.beforeComment 0 rest := by
  rw [Inset.source_code_append, Inset.source_code_append]
  have closing : (body ++ '|' :: rest).dropWhile (· ≠ '|') = '|' :: rest := by
    rw [List.dropWhile_append_of_pos fun c member => by
      simpa using fun same : c = '|' => bar (same ▸ member)]
    exact List.dropWhile_cons_of_neg (by simp)
  have width : Code.inlineWidth?
      ('\\' :: (['v', 'e', 'r', 'b'] ++ '|' :: (body ++ '|' :: rest))) =
        some ((['v', 'e', 'r', 'b'] ++ '|' :: (body ++ ['|'])).length + 1) := by
    have opened : Text.dropFront? Code.inlineOpening
        ('\\' :: (['v', 'e', 'r', 'b'] ++ '|' :: (body ++ '|' :: rest))) =
          some ('|' :: (body ++ '|' :: rest)) :=
      Text.dropFront?_eq_some_iff.mpr rfl
    have starless : Text.dropFront? ['*'] ('|' :: (body ++ '|' :: rest)) = none :=
      Text.dropFront?_eq_none_iff.mpr (by simp [List.cons_prefix_cons])
    simp only [Code.inlineWidth?, opened, starless, Option.bind_eq_bind, Option.bind_some,
      Option.getD_none, closing]
    rw [if_pos (by decide)]
    simp
    omega
  have covered := beforeComment_covered (['v', 'e', 'r', 'b'] ++ '|' :: (body ++ ['|'])) rest
  have joined : ['v', 'e', 'r', 'b'] ++ '|' :: (body ++ ['|']) ++ rest =
      ['v', 'e', 'r', 'b'] ++ '|' :: (body ++ '|' :: rest) := by simp
  rw [joined] at covered
  rw [List.cons_append, Code.beforeComment, if_pos rfl, width, Option.getD_some,
    Nat.add_sub_cancel]
  exact (congrArg ('\\' :: ·) covered).trans (by simp)

/-- No comment starts in a document of word texts and insets. -/
theorem beforeComment_source {text : Text} (words : IsWordText text)
    {later : List (Inset × Text)} (insets : ∀ inset ∈ later.map Prod.fst, inset.WellFormed)
    (texts : ∀ text ∈ later.map Prod.snd, IsWordText text) :
    Code.beforeComment 0 (text ++ writeLater Inset.source later) =
      text ++ writeLater Inset.source later := by
  have word {text : Text} (words : IsWordText text) (rest : Text) :
      Code.beforeComment 0 (text ++ rest) = text ++ Code.beforeComment 0 rest :=
    beforeComment_append (words.not_mem (by decide)) (words.not_mem (by decide)) rest
  induction later generalizing text with
  | nil => simpa [Code.beforeComment] using word words []
  | cons first others inductionHypothesis =>
    obtain ⟨inset, after⟩ := first
    simp only [List.map_cons, List.forall_mem_cons] at insets texts
    rw [writeLater_cons, word words]
    have rest := inductionHypothesis texts.1 insets.2 texts.2
    cases inset with
    | formula body =>
      obtain ⟨-, free⟩ := insets.1
      have plain : '\\' ∉ (Inset.formula body).source := by
        simpa [Inset.formula_source] using free '\\' (by decide)
      have percent : '%' ∉ (Inset.formula body).source := by
        simpa [Inset.formula_source] using free '%' (by decide)
      rw [beforeComment_append plain percent, rest]
    | code body => rw [beforeComment_code insets.1.1, rest]

/-- Every opening marker of an environment starts in the same way. -/
theorem environmentOpening_starts (name : Text) :
    Inset.environmentOpening <+: beginMarker name := by
  have spelled : beginMarker name = Inset.environmentOpening ++ (name ++ ['}']) := rfl
  exact ⟨name ++ ['}'], spelled.symm⟩

section Source

variable {document : Alternation} (wellFormed : document.WellFormed)

include wellFormed

/-- The first text of a document is a word text. -/
theorem WellFormed.first_words : IsWordText document.first :=
  wellFormed.words _ (List.mem_cons_self ..)

/-- The later texts of a document are word texts. -/
theorem WellFormed.later_words : ∀ text ∈ document.later.map Prod.snd, IsWordText text :=
  fun text member => wellFormed.words text (List.mem_cons_of_mem _ member)

/-- The source does not spell the opening of a token. -/
theorem WellFormed.no_token : ¬ tokenOpening <:+: document.source := by
  have sign : '@' ∈ tokenOpening := by decide
  refine not_infix_source sign (by decide) (by decide) (by decide)
    wellFormed.first_words (fun inset member => ?_) wellFormed.later_words
  have inner := wellFormed.insets inset member
  cases inset with
  | formula body => exact Text.not_infix_of_not_mem (inner.2 '@' (by decide))
  | code body => exact inner.2.2.1

/-- The source opens no environment. -/
theorem WellFormed.no_environment : ¬ Inset.environmentOpening <:+: document.source := by
  have sign : '{' ∈ Inset.environmentOpening := by decide
  refine not_infix_source sign (by decide) (by decide) (by decide)
    wellFormed.first_words (fun inset member => ?_) wellFormed.later_words
  have inner := wellFormed.insets inset member
  cases inset with
  | formula body => exact Text.not_infix_of_not_mem (inner.2 '\\' (by decide))
  | code body => exact inner.2.2.2

/-- A document is a single line if what is written for each of its insets is one. -/
theorem WellFormed.single_line {write : Inset → Text}
    (single : ∀ inset, inset.WellFormed → '\n' ∉ write inset) :
    '\n' ∉ document.first ++ writeLater write document.later := by
  have later : ∀ c ∈ writeLater write document.later, c ≠ '\n' := by
    refine (Woven.of_write write document.later).forall_mem
      (fun inset listed written same => ?_) fun text listed c inside =>
        (wellFormed.later_words text listed).ne inside (by decide)
    rintro c inside rfl
    exact single inset (wellFormed.insets inset listed) (same ▸ inside)
  rw [List.mem_append, not_or]
  exact ⟨wellFormed.first_words.not_mem (by decide), fun member => later _ member rfl⟩

/-- The source is a single line. -/
theorem WellFormed.source_single : '\n' ∉ document.source :=
  wellFormed.single_line fun _ inset => inset.source_single

/-- The source has no comments. -/
theorem WellFormed.stripComments_source :
    Code.stripComments document.source = document.source := by
  by_cases empty : document.source = []
  · rw [empty]
    rfl
  rw [Code.stripComments, Text.linesWithBreaks_of_single wellFormed.source_single empty,
    Code.stripCommentLines, List.find?_eq_none.mpr]
  · simp only [Code.stripCommentLines, List.flatten_cons, List.flatten_nil, List.append_nil]
    exact beforeComment_source wellFormed.first_words wellFormed.insets wellFormed.later_words
  · intro fence member
    obtain ⟨name, -, rfl⟩ := List.mem_map.mp member
    rw [Text.contains_iff]
    exact fun occurs => wellFormed.no_environment
      ((environmentOpening_starts name.toList).isInfix.trans occurs)

/-- Nothing in the source is broken up. -/
theorem WellFormed.neutralize_source : Fragment.neutralize document.source = document.source := by
  refine editAhead_of_silent fun suffix within _ => ?_
  rw [Text.dropFront?_eq_none_iff.mpr, Option.map_none]
  exact fun start => wellFormed.no_token (start.isInfix.trans within.isInfix)

/-- The source has no code environments. -/
theorem WellFormed.protectEnvironment_source (store : FragmentStore) (name : Text)
    (maxOptions required : Nat) (answer : Environment → Option Text) :
    store.protectEnvironment name maxOptions required answer document.source =
      (store, document.source) := by
  rw [FragmentStore.protectEnvironment, editEnvironment_of_absent fun occurs =>
    wellFormed.no_environment ((environmentOpening_starts name).isInfix.trans occurs)]

end Source

/-- A piece in which a rule offers nothing is kept. -/
theorem editFrom_keepPiece {σ : Type} {rule : Rule σ} {state : σ} {piece : Text}
    (silent : ∀ cursor c rest, c ∈ piece → rule state cursor (c :: rest) = (state, none))
    (cursor : Cursor) (rest : Text) :
    editFrom rule state cursor 0 (piece ++ rest) =
      ((editFrom rule state (cursor.advanceOver piece) 0 rest).1,
        piece ++ (editFrom rule state (cursor.advanceOver piece) 0 rest).2) := by
  induction piece generalizing cursor with
  | nil => rfl
  | cons c others inductionHypothesis =>
    rw [List.cons_append, editFrom_keep (silent cursor c _ (List.mem_cons_self ..)),
      inductionHypothesis fun cursor d rest member =>
        silent cursor d rest (List.mem_cons_of_mem c member)]
    rfl

/-- Inline code is read between its bars. -/
theorem readInline_code {body : Text} (bar : '|' ∉ body) (single : '\n' ∉ body) (rest : Text) :
    Code.readInline "verb".toList false ((Inset.code body).source ++ rest) =
      some (body, rest) := by
  have command : afterCommand? "verb".toList ((Inset.code body).source ++ rest) =
      some ('|' :: (body ++ '|' :: rest)) := by
    have dropped : Text.dropFront? "verb".toList
        (['v', 'e', 'r', 'b'] ++ '|' :: (body ++ '|' :: rest)) =
        some ('|' :: (body ++ '|' :: rest)) := Text.dropFront?_eq_some_iff.mpr rfl
    rw [Inset.source_code_append, List.cons_append, afterCommand?, if_pos rfl, dropped]
    rfl
  have starless : Text.dropFront? ['*'] ('|' :: (body ++ '|' :: rest)) = none :=
    Text.dropFront?_eq_none_iff.mpr (by simp [List.cons_prefix_cons])
  have inside : ∀ c ∈ body, (c ≠ '|' && c ≠ '\n') = true := by
    intro c member
    have noBar : c ≠ '|' := fun same => bar (same ▸ member)
    have noBreak : c ≠ '\n' := fun same => single (same ▸ member)
    simp [noBar, noBreak]
  have taken : (body ++ '|' :: rest).takeWhile (fun c => c ≠ '|' && c ≠ '\n') = body := by
    rw [List.takeWhile_append_of_pos inside, List.takeWhile_cons_of_neg (by simp),
      List.append_nil]
  have dropped : (body ++ '|' :: rest).dropWhile (fun c => c ≠ '|' && c ≠ '\n') =
      '|' :: rest := by
    rw [List.dropWhile_append_of_pos inside, List.dropWhile_cons_of_neg (by simp)]
  have delimiter : (Text.isAlphabetic '|' || Text.isAddedAlphabetic '|' || Text.isBlank '|') =
      false := by decide
  have closed : Text.dropFront? ['|'] ('|' :: rest) = some rest :=
    Text.dropFront?_append ['|'] rest
  simp only [Code.readInline, command, starless, Option.bind_eq_bind, Option.bind_some,
    Option.getD_none, Bool.false_eq_true, if_false, delimiter]
  rw [if_neg (by decide), taken, dropped, closed]
  rfl

/-- Inline code is looked for only where a backslash stands. -/
theorem inlineRule_startsAtBackslash {σ : Type} (name : Text) (listing : Bool)
    (answer : σ → Text → σ × Text) :
    (Code.inlineRule name listing answer).StartsAtBackslash :=
  (Code.inlineRule_startsAt name listing answer).startsAtBackslash

/-- The token of a fragment that shows an inset. -/
def Stored (store : FragmentStore) (inset : Inset) (written : Text) : Prop :=
  ∃ index, store.get? index = some inset.output ∧ written = token index

/-- Code that is stored, or a formula as it was. -/
def CodeStored (store : FragmentStore) (inset : Inset) (written : Text) : Prop :=
  match inset with
  | .code _ => Stored store inset written
  | .formula _ => written = inset.source

/-- A rule that acts only at backslashes keeps a piece without them. -/
theorem editFrom_keepPlain {σ : Type} {rule : Rule σ} (starts : rule.StartsAtBackslash)
    {piece : Text} (plain : '\\' ∉ piece) (state : σ) (cursor : Cursor) (rest : Text) :
    editFrom rule state cursor 0 (piece ++ rest) =
      ((editFrom rule state (cursor.advanceOver piece) 0 rest).1,
        piece ++ (editFrom rule state (cursor.advanceOver piece) 0 rest).2) :=
  editFrom_keepPiece (fun cursor c rest member =>
    starts state cursor c rest fun same => plain (same ▸ member)) cursor rest

/-- The rule for inline code moves a whole inset of code into the store. -/
theorem inlineRule_source {body : Text} (wellFormed : (Inset.code body).WellFormed)
    {cursor : Cursor} (free : cursor.escaped = false) (store : FragmentStore) (rest : Text) :
    Code.inlineRule "verb".toList false Code.storeInline store cursor
        ((Inset.code body).source ++ rest) =
      ((store.push (Inset.code body).output).1,
        some (Edit.upTo ((Inset.code body).source ++ rest) rest (token store.size))) := by
  simp only [Code.inlineRule, free, Bool.false_eq_true, if_false,
    readInline_code wellFormed.1 wellFormed.2.1]
  rfl

/-- The code of a document is stored, each under a token of its own, and all
else is kept. -/
theorem editFrom_inlineRule {text : Text} (words : IsWordText text)
    {later : List (Inset × Text)} (insets : ∀ inset ∈ later.map Prod.fst, inset.WellFormed)
    (texts : ∀ text ∈ later.map Prod.snd, IsWordText text) (store : FragmentStore)
    {cursor : Cursor} (free : cursor.escaped = false) :
    ∃ reached written,
      editFrom (Code.inlineRule "verb".toList false Code.storeInline) store cursor 0
          (text ++ writeLater Inset.source later) = (reached, text ++ written) ∧
        FragmentStore.Extends store reached ∧ Woven (CodeStored reached) later written := by
  have starts := inlineRule_startsAtBackslash "verb".toList false Code.storeInline
  have plain {text : Text} (words : IsWordText text) : '\\' ∉ text := words.not_mem (by decide)
  induction later generalizing text store cursor with
  | nil =>
    refine ⟨store, [], ?_, FragmentStore.Extends.refl store, .done⟩
    rw [writeLater_nil, editFrom_keepPlain starts (plain words), editFrom_nil]
  | cons first others inductionHypothesis =>
    obtain ⟨inset, after⟩ := first
    simp only [List.map_cons, List.forall_mem_cons] at insets texts
    have started := Cursor.advanceOver_escaped (plain words) free
    rw [writeLater_cons, editFrom_keepPlain starts (plain words)]
    cases inset with
    | formula body =>
      have bare : '\\' ∉ (Inset.formula body).source := by
        simpa [Inset.formula_source] using insets.1.2 '\\' (by decide)
      obtain ⟨reached, written, run, grown, woven⟩ := inductionHypothesis texts.1 insets.2 texts.2
        store (Cursor.advanceOver_escaped bare started)
      rw [editFrom_keepPlain starts bare, run]
      exact ⟨reached, _, rfl, grown, .next rfl woven⟩
    | code body =>
      have ended : ((cursor.advanceOver text).advanceOver (Inset.code body).source).escaped =
          false :=
        Cursor.advanceOver_concat_escaped _
          (['\\', 'v', 'e', 'r', 'b'] ++ '|' :: body) (by decide)
      obtain ⟨reached, written, run, grown, woven⟩ := inductionHypothesis texts.1 insets.2 texts.2
        (store.push (Inset.code body).output).1 ended
      have found := grown _ _ (FragmentStore.get?_push_size store (Inset.code body).output)
      rw [editFrom_replace (Inset.source_ne_nil _) (inlineRule_source insets.1 started _ _), run]
      exact ⟨reached, _, rfl, (FragmentStore.Extends.push store _).trans grown,
        .next ⟨store.size, found, rfl⟩ woven⟩

/-- A formula without backslashes is written with its ends trimmed, and with
nothing else changed. -/
theorem renderInline_of_plain {body : Text} (plain : '\\' ∉ body) (colors : ColorTable) :
    Math.renderInline colors body = (Inset.formula body).output := by
  have cleaned : Math.clean colors body = Text.trim body := by
    simp only [Math.clean, Math.resolveColor, Numbering.dropLabels_of_escaped (.of_plain plain),
      replaceCommand_of_plain plain]
  rw [Math.renderInline, cleaned, Text.trim_trim]
  rfl

/-- The inside of a formula is read up to its closing dollar. -/
theorem readDollars_formula {body : Text} (free : ∀ c ∈ "\\$%@\n".toList, c ∉ body)
    (rest : Text) : readDollars false (body ++ '$' :: rest) = some (body, rest) := by
  have plain : '\\' ∉ body := free '\\' (by decide)
  have dollar : '$' ∉ body := free '$' (by decide)
  have single : '\n' ∉ body := free '\n' (by decide)
  clear free
  induction body with
  | nil => simp [readDollars]
  | cons c others inductionHypothesis =>
    rw [List.mem_cons, not_or] at plain dollar single
    rw [List.cons_append, readDollars, if_neg (Ne.symm plain.1), if_neg (Ne.symm dollar.1),
      if_neg (by simp [Ne.symm single.1]), inductionHypothesis plain.2 dollar.2 single.2]
    rfl

/-- The rule that moves inline formulas into the store. -/
def formulaRule (colors : ColorTable) : Rule FragmentStore :=
  dollarsRule fun store body => store.push (Math.renderInline colors body)

/-- Inline formulas are looked for only where a dollar stands. -/
theorem formulaRule_of_ne (colors : ColorTable) (store : FragmentStore) (cursor : Cursor)
    {c : Char} (different : c ≠ '$') (rest : Text) :
    formulaRule colors store cursor (c :: rest) = (store, none) := by
  simp [formulaRule, dollarsRule, different]

/-- A text without a dollar is kept. -/
theorem editFrom_keepDollarless {colors : ColorTable} {piece : Text} (dollar : '$' ∉ piece)
    (store : FragmentStore) (cursor : Cursor) (rest : Text) :
    editFrom (formulaRule colors) store cursor 0 (piece ++ rest) =
      ((editFrom (formulaRule colors) store (cursor.advanceOver piece) 0 rest).1,
        piece ++ (editFrom (formulaRule colors) store (cursor.advanceOver piece) 0 rest).2) :=
  editFrom_keepPiece (fun cursor _ rest member => formulaRule_of_ne colors store cursor
    (fun same => dollar (same ▸ member)) rest) cursor rest

/-- The rule for inline formulas moves a whole inset of a formula into the
store. -/
theorem formulaRule_source {body : Text} (wellFormed : (Inset.formula body).WellFormed)
    {cursor : Cursor} (free : cursor.escaped = false) (colors : ColorTable)
    (store : FragmentStore) (rest : Text) :
    formulaRule colors store cursor ((Inset.formula body).source ++ rest) =
      ((store.push (Inset.formula body).output).1,
        some (Edit.upTo ((Inset.formula body).source ++ rest) rest (token store.size))) := by
  obtain ⟨visible, bare⟩ := wellFormed
  have read := readDollars_formula bare rest
  have nonempty : body ≠ [] := by
    rintro rfl
    exact absurd visible (by decide)
  obtain ⟨c, others, rfl⟩ := List.exists_cons_of_ne_nil nonempty
  rw [Inset.source_formula_append]
  simp only [formulaRule, dollarsRule, free, read, ne_eq, not_true_eq_false, decide_false,
    Bool.or_self, Bool.false_eq_true, if_false, renderInline_of_plain (bare '\\' (by decide))]
  rfl

/-- Once the code is stored, the formulas of a document are stored as well, each
under a token of its own. -/
theorem editFrom_formulaRule {colors : ColorTable} {coded : FragmentStore} {text written : Text}
    (words : IsWordText text) {later : List (Inset × Text)}
    (insets : ∀ inset ∈ later.map Prod.fst, inset.WellFormed)
    (texts : ∀ text ∈ later.map Prod.snd, IsWordText text)
    (woven : Woven (CodeStored coded) later written) {store : FragmentStore}
    (grown : FragmentStore.Extends coded store) {cursor : Cursor}
    (free : cursor.escaped = false) :
    ∃ reached others,
      editFrom (formulaRule colors) store cursor 0 (text ++ written) =
          (reached, text ++ others) ∧
        FragmentStore.Extends store reached ∧ Woven (Stored reached) later others := by
  have dollarless {text : Text} (words : IsWordText text) : '$' ∉ text :=
    words.not_mem (by decide)
  have plain {text : Text} (words : IsWordText text) : '\\' ∉ text := words.not_mem (by decide)
  induction woven generalizing text store cursor with
  | done =>
    refine ⟨store, [], ?_, FragmentStore.Extends.refl store, .done⟩
    rw [editFrom_keepDollarless (dollarless words), editFrom_nil]
  | @next inset after spelled rest later here behind inductionHypothesis =>
    simp only [List.map_cons, List.forall_mem_cons] at insets texts
    have started := Cursor.advanceOver_escaped (plain words) free
    rw [editFrom_keepDollarless (dollarless words)]
    cases inset with
    | code body =>
      obtain ⟨index, found, rfl⟩ := here
      have ended := Cursor.advanceOver_escaped (not_mem_token (by decide) index) started
      obtain ⟨reached, others, run, later, woven⟩ :=
        inductionHypothesis texts.1 insets.2 texts.2 grown ended
      rw [editFrom_keepDollarless (not_mem_token (by decide) index), run]
      have stored := later _ _ (grown _ _ found)
      exact ⟨reached, _, rfl, later, .next ⟨index, stored, rfl⟩ woven⟩
    | formula body =>
      obtain rfl := here
      have ended : ((cursor.advanceOver text).advanceOver (Inset.formula body).source).escaped =
          false :=
        Cursor.advanceOver_concat_escaped _ ('$' :: body) (by decide)
      have further : FragmentStore.Extends coded (store.push (Inset.formula body).output).1 :=
        grown.trans (FragmentStore.Extends.push store _)
      obtain ⟨reached, others, run, later, woven⟩ :=
        inductionHypothesis texts.1 insets.2 texts.2 further ended
      have found := later _ _ (FragmentStore.get?_push_size store (Inset.formula body).output)
      rw [editFrom_replace (Inset.source_ne_nil _) (formulaRule_source insets.1 started _ _ _), run]
      exact ⟨reached, _, rfl, (FragmentStore.Extends.push store _).trans later,
        .next ⟨store.size, found, rfl⟩ woven⟩

end LatexMarkdown.Document.Alternation
