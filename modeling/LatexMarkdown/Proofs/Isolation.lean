import LatexMarkdown.Proofs.Run
import LatexMarkdown.Proofs.Storing

/-!
# Insets pass through a conversion alone

Once all insets are stored, the document is words and tokens in a single tidy
line, which no pass changes. Restoration then puts every inset in its place.
-/

namespace LatexMarkdown.Document.Alternation

open Fragment Scan

/-- A sign that is not in a text neither starts nor ends it. -/
theorem ends_of_not_mem {sign : Char} {text : Text} (absent : sign ∉ text) :
    text.head? ≠ some sign ∧ text.getLast? ≠ some sign :=
  ⟨fun start => absent (List.mem_of_head? start), fun ending =>
    absent (List.mem_of_getLast? ending)⟩

/-- Stored insets put no two spaces next to each other. -/
theorem Woven.spaced {store : FragmentStore} {text written : Text} (words : IsWordText text)
    {later : List (Inset × Text)} (texts : ∀ text ∈ later.map Prod.snd, IsWordText text)
    (woven : Woven (Stored store) later written) : ¬ [' ', ' '] <:+: text ++ written := by
  induction woven generalizing text with
  | done => simpa using words.2
  | next here _ inductionHypothesis =>
    simp only [List.map_cons, List.forall_mem_cons] at texts
    obtain ⟨index, -, rfl⟩ := here
    have spaceless : ' ' ∉ token index := not_mem_token (by decide) index
    obtain ⟨start, ending⟩ := ends_of_not_mem spaceless
    have behind := Text.not_pair_infix_append (Text.not_pair_infix_of_not_mem spaceless)
      (inductionHypothesis texts.1 texts.2) (.inl ending)
    refine Text.not_pair_infix_append words.2 behind (.inr ?_)
    rwa [List.head?_append_of_ne_nil _ (token_ne_nil index)]

/-- Where the source of a document does not end with a space, neither does the
document with its insets stored. -/
theorem Woven.ending {store : FragmentStore} {text written : Text}
    {later : List (Inset × Text)} (woven : Woven (Stored store) later written)
    (ending : (text ++ writeLater Inset.source later).getLast? ≠ some ' ') :
    (text ++ written).getLast? ≠ some ' ' := by
  induction woven generalizing text with
  | done => exact ending
  | @next inset after spelled rest later here _ inductionHypothesis =>
    obtain ⟨index, -, rfl⟩ := here
    rw [writeLater_cons, List.getLast?_append, List.getLast?_append] at ending
    have behind : (after ++ rest).getLast? ≠ some ' ' := by
      refine inductionHypothesis fun last => ending ?_
      rw [last]
      rfl
    obtain ⟨c, last⟩ := Option.ne_none_iff_exists'.mp
      (mt List.getLast?_eq_none_iff.mp (token_ne_nil index))
    have spaceless : ' ' ∉ token index := not_mem_token (by decide) index
    rw [List.getLast?_append, List.getLast?_append]
    cases final : (after ++ rest).getLast? with
    | some d => simpa [final] using behind
    | none => simpa [last] using (ends_of_not_mem spaceless).2

/-- Where the source of a document does not start with a space, neither does the
document with its insets stored. -/
theorem Woven.start {store : FragmentStore} {text written : Text}
    {later : List (Inset × Text)} (woven : Woven (Stored store) later written)
    (start : (text ++ writeLater Inset.source later).head? ≠ some ' ') :
    (text ++ written).head? ≠ some ' ' := by
  cases text with
  | cons c others => exact start
  | nil =>
    cases woven with
    | done => simp
    | next here behind =>
      obtain ⟨index, -, rfl⟩ := here
      rw [List.nil_append, List.head?_append_of_ne_nil _ (token_ne_nil index)]
      exact (ends_of_not_mem (not_mem_token (by decide) index)).1

/-- The source of a formula has no two dollars next to each other. -/
theorem Inset.formula_source_dollars {body : Text} (dollar : '$' ∉ body) (nonempty : body ≠ []) :
    ¬ ['$', '$'] <:+: (Inset.formula body).source := by
  obtain ⟨start, ending⟩ := ends_of_not_mem dollar
  have closing : ¬ ['$', '$'] <:+: body ++ ['$'] :=
    Text.not_pair_infix_append (Text.not_pair_infix_of_not_mem dollar) (by decide) (.inl ending)
  have opened : ¬ ['$', '$'] <:+: ['$'] ++ (body ++ ['$']) := by
    refine Text.not_pair_infix_append (by decide) closing (.inr ?_)
    rwa [List.head?_append_of_ne_nil _ nonempty]
  exact opened

/-- Where texts keep the insets apart, no two dollars stand next to each other. -/
theorem Woven.dollars {coded : FragmentStore} {text written : Text} (words : IsWordText text)
    {later : List (Inset × Text)} (insets : ∀ inset ∈ later.map Prod.fst, inset.WellFormed)
    (texts : ∀ text ∈ later.map Prod.snd, IsWordText text)
    (separated : ∀ text ∈ (later.map Prod.snd).dropLast, text ≠ [])
    (woven : Woven (CodeStored coded) later written) : ¬ ['$', '$'] <:+: text ++ written := by
  have dollarless {text : Text} (words : IsWordText text) : '$' ∉ text :=
    words.not_mem (by decide)
  induction woven generalizing text with
  | done => simpa using Text.not_pair_infix_of_not_mem (dollarless words)
  | @next inset after spelled rest later here woven inductionHypothesis =>
    simp only [List.map_cons, List.forall_mem_cons] at insets texts separated
    have apart : ∀ text ∈ (later.map Prod.snd).dropLast, text ≠ [] := by
      intro text member
      refine separated text ?_
      rw [List.dropLast_cons_of_ne_nil (by rintro empty; simp [empty] at member)]
      exact List.mem_cons_of_mem _ member
    have behind := inductionHypothesis texts.1 insets.2 texts.2 apart
    refine Text.not_pair_infix_append (Text.not_pair_infix_of_not_mem (dollarless words)) ?_
      (.inl (ends_of_not_mem (dollarless words)).2)
    cases inset with
    | code body =>
      obtain ⟨index, -, rfl⟩ := here
      have dollar : '$' ∉ token index := not_mem_token (by decide) index
      exact Text.not_pair_infix_append (Text.not_pair_infix_of_not_mem dollar) behind
        (.inl (ends_of_not_mem dollar).2)
    | formula body =>
      obtain ⟨visible, bare⟩ := insets.1
      have nonempty : body ≠ [] := by
        rintro rfl
        exact absurd visible (by decide)
      obtain rfl := here
      refine Text.not_pair_infix_append
        (Inset.formula_source_dollars (bare '$' (by decide)) nonempty) behind (.inr ?_)
      cases after with
      | cons c others =>
        rw [List.cons_append, List.head?_cons]
        exact fun same => dollarless texts.1 (Option.some.inj same ▸ List.mem_cons_self ..)
      | nil =>
        cases woven with
        | done => simp
        | next => simp at separated

/-- A document with all its insets stored has only letters, digits, spaces and
at signs. -/
theorem Woven.not_mem_stored {store : FragmentStore} {text written : Text} {sign : Char}
    (words : IsWordText text) {later : List (Inset × Text)}
    (texts : ∀ text ∈ later.map Prod.snd, IsWordText text)
    (woven : Woven (Stored store) later written)
    (foreign : sign.isAlpha = false ∧ sign ≠ ' ' ∧ sign.isDigit = false ∧ sign ∉ tokenOpening) :
    sign ∉ text ++ written := by
  have behind : ∀ c ∈ written, c ≠ sign := by
    refine woven.forall_mem (fun inset _ written stored => ?_) fun text listed c member =>
      (texts text listed).ne member ⟨foreign.1, foreign.2.1⟩
    obtain ⟨index, -, rfl⟩ := stored
    intro c member same
    exact not_mem_token foreign.2.2 index (same ▸ member)
  rw [List.mem_append, not_or]
  exact ⟨words.not_mem ⟨foreign.1, foreign.2.1⟩, fun member => behind sign member rfl⟩

/-- A document with its code stored has no backslash. -/
theorem Woven.not_mem_coded {coded : FragmentStore} {text written : Text}
    (words : IsWordText text) {later : List (Inset × Text)}
    (insets : ∀ inset ∈ later.map Prod.fst, inset.WellFormed)
    (texts : ∀ text ∈ later.map Prod.snd, IsWordText text)
    (woven : Woven (CodeStored coded) later written) : '\\' ∉ text ++ written := by
  have behind : ∀ c ∈ written, c ≠ '\\' := by
    refine woven.forall_mem (fun inset listed written stored => ?_) fun text listed c member =>
      (texts text listed).ne member (by decide)
    rintro c member rfl
    cases inset with
    | code body =>
      obtain ⟨index, -, rfl⟩ := stored
      exact not_mem_token (by decide) index member
    | formula body =>
      obtain rfl := stored
      have bare := (insets _ listed).2 '\\' (by decide)
      simp [Inset.formula_source, bare] at member
  rw [List.mem_append, not_or]
  exact ⟨words.not_mem (by decide), fun member => behind _ member rfl⟩

/-- Restoration puts the output of every inset in the place of its token. -/
theorem Woven.restore {store : FragmentStore} {text written : Text} (words : IsWordText text)
    {later : List (Inset × Text)} (texts : ∀ text ∈ later.map Prod.snd, IsWordText text)
    (woven : Woven (Stored store) later written) :
    store.restore (text ++ written) = text ++ writeLater Inset.output later := by
  have keep {text : Text} (words : IsWordText text) (rest : Text) :
      store.restore (text ++ rest) = text ++ store.restore rest :=
    FragmentStore.restore_append (words.not_mem (by decide)) rest
  induction woven generalizing text with
  | done => exact keep words []
  | next here _ inductionHypothesis =>
    simp only [List.map_cons, List.forall_mem_cons] at texts
    obtain ⟨index, found, rfl⟩ := here
    rw [keep words, FragmentStore.restore_token found, inductionHypothesis texts.1 texts.2,
      writeLater_cons]

/-- A document whose insets start visibly is blank only when it is empty. -/
theorem isBlankText_write {write : Inset → Text} {text : Text} (words : IsWordText text)
    (later : List (Inset × Text))
    (visible : ∀ inset, ∃ c rest, write inset = c :: rest ∧ Text.isBlank c = false)
    (start : text.head? ≠ some ' ') :
    Text.isBlankText (text ++ writeLater write later) =
      (text.isEmpty && later.isEmpty) := by
  cases text with
  | cons c others =>
    have letter : c.isAlpha = true := by
      rcases words.1 c (List.mem_cons_self ..) with letter | space
      · exact letter
      · exact absurd (congrArg some space) start
    simp [Text.isBlankText, Text.isBlank_of_isAlpha letter]
  | nil =>
    cases later with
    | nil => rfl
    | cons first others =>
      obtain ⟨c, rest, spelled, seen⟩ := visible first.1
      rw [writeLater_cons, spelled]
      simp [Text.isBlankText, seen]

section Run

variable {document : Alternation} (wellFormed : document.WellFormed)

include wellFormed

/-- The output is a single line. -/
theorem WellFormed.output_single : '\n' ∉ document.output :=
  wellFormed.single_line fun _ inset => inset.output_single

/-- The first passes store the code and change nothing else. -/
theorem WellFormed.run_code (options : Options) :
    ∃ coded written,
      runPasses codePasses (.start options) document.source =
        ({ State.start options with store := coded }, document.first ++ written) ∧
      Woven (CodeStored coded) document.later written := by
  obtain ⟨coded, written, stored, -, woven⟩ := editFrom_inlineRule wellFormed.first_words
    wellFormed.insets wellFormed.later_words .empty (show Cursor.start.escaped = false from rfl)
  have plain : '\\' ∉ document.first ++ written := woven.not_mem_coded wellFormed.first_words
    wellFormed.insets wellFormed.later_words
  have inline : Code.editInline "verb".toList false Code.storeInline .empty
      document.source =
      (coded, document.first ++ written) := stored
  have listings : Code.editInline "lstinline".toList true Code.storeInline coded
      (document.first ++ written) =
      (coded, document.first ++ written) :=
    (inlineRule_startsAtBackslash _ _ _).edit_eq plain coded
  have moved : Code.protect (State.start options).options (State.start options).store
      document.source = (coded, document.first ++ written) := by
    rw [Code.protect, foldl_fixed_of_mem Code.families]
    · simp only [State.start, inline, listings]
    · exact fun _ _ => wellFormed.protectEnvironment_source ..
  refine ⟨coded, written, ?_, woven⟩
  simp only [codePasses, runPasses, Pass.run, wellFormed.stripComments_source,
    wellFormed.neutralize_source, moved, State.keepStore]

/-- The passes for formulas store the formulas and change nothing else. -/
theorem WellFormed.protect_formulas (colors : ColorTable) (labels : LabelRegistry)
    (preview : Bool) {coded : FragmentStore} {written : Text}
    (woven : Woven (CodeStored coded) document.later written) :
    ∃ reached others,
      Math.protect colors labels preview coded (document.first ++ written) =
        (reached, document.first ++ others) ∧
      Woven (Stored reached) document.later others := by
  obtain ⟨reached, others, stored, -, later⟩ := editFrom_formulaRule wellFormed.first_words
    wellFormed.insets wellFormed.later_words woven (FragmentStore.Extends.refl coded)
    (show Cursor.start.escaped = false from rfl)
  have plain : '\\' ∉ document.first ++ written := woven.not_mem_coded wellFormed.first_words
    wellFormed.insets wellFormed.later_words
  have double : ¬ Math.doubleDollars.opening <:+: document.first ++ written :=
    woven.dollars wellFormed.first_words wellFormed.insets wellFormed.later_words
      wellFormed.separated
  have environment (name : Text) (required : Nat) (answer : Environment → Option Text) :
      coded.protectEnvironment name 0 required answer (document.first ++ written) =
        (coded, document.first ++ written) := by
    rw [FragmentStore.protectEnvironment, editEnvironment_of_plain plain]
  have delimited {delimiters : Delimiters}
      (unopened : ¬ delimiters.opening <:+: document.first ++ written)
      (answer : Text → Option Text) :
      coded.protectDelimited delimiters answer (document.first ++ written) =
        (coded, document.first ++ written) := by
    rw [FragmentStore.protectDelimited, editDelimited_of_absent unopened]
  have square : ¬ Math.brackets.opening <:+: document.first ++ written :=
    Text.not_infix_of_not_mem plain
  have round : ¬ Math.parentheses.opening <:+: document.first ++ written :=
    Text.not_infix_of_not_mem plain
  have formulas : coded.protectDollars (Math.renderInline colors) (document.first ++ written) =
      (reached, document.first ++ others) := stored
  refine ⟨reached, others, ?_, later⟩
  simp only [Math.protect, delimited square]
  rw [foldl_fixed_of_mem Math.families]
  · simp only [delimited double, delimited round, environment]
    exact formulas
  · exact fun _ _ => environment ..

/-- A document with all its insets stored is a tidy line. -/
theorem WellFormed.tidy {store : FragmentStore} {written : Text}
    (woven : Woven (Stored store) document.later written) :
    Text.Tidy (document.first ++ written) where
  single := woven.not_mem_stored wellFormed.first_words wellFormed.later_words (by decide)
  untabbed := woven.not_mem_stored wellFormed.first_words wellFormed.later_words (by decide)
  spaced := woven.spaced wellFormed.first_words wellFormed.later_words
  start := woven.start wellFormed.start
  ending := woven.ending wellFormed.ending

/-- Between the storing of the code and the restoration, only the formulas are
acted on. -/
theorem WellFormed.run_between {state : State} (labels : state.labels = .empty)
    (citations : state.citations = .empty) {written : Text}
    (woven : Woven (CodeStored state.store) document.later written) :
    ∃ reached others,
      runPasses middlePasses state (document.first ++ written) =
        ({ state with store := reached }, document.first ++ others) ∧
      Woven (Stored reached) document.later others := by
  obtain ⟨reached, others, moved, later⟩ :=
    wellFormed.protect_formulas state.colors state.labels state.options.preview woven
  have escaped : Escaped [] (document.first ++ written) :=
    .of_plain (woven.not_mem_coded wellFormed.first_words wellFormed.insets wellFormed.later_words)
  have absent {sign : Char} (foreign : sign.isAlpha = false ∧ sign ≠ ' ' ∧
      sign.isDigit = false ∧ sign ∉ tokenOpening) : sign ∉ document.first ++ others :=
    later.not_mem_stored wellFormed.first_words wellFormed.later_words foreign
  have escapedLater : Escaped [] (document.first ++ others) := .of_plain (absent (by decide))
  have unpunctuated : ∀ sign ∈ "?!`'-~".toList, sign ∉ document.first ++ others := by
    have foreign : "?!`'-~".toList.all (fun sign => sign.isAlpha = false ∧ sign ≠ ' ' ∧
        sign.isDigit = false ∧ sign ∉ tokenOpening) = true := by decide
    exact fun sign listed => absent (of_decide_eq_true (List.all_eq_true.mp foreign sign listed))
  have tidy := wellFormed.tidy later
  have numbered : state.number (document.first ++ written) = state := by
    rw [State.number_of_escaped escaped, ← labels, ← citations]
  have protection : runPasses protectionPasses state (document.first ++ written) =
      ({ state with store := reached }, document.first ++ others) := by
    simp only [protectionPasses, runPasses, Pass.run, Link.protect_of_escaped escaped,
      Table.protect_of_escaped escaped, State.keepStore, Table.protectArrays_of_escaped escaped,
      moved]
  refine ⟨reached, others, ?_, later⟩
  simp only [middlePasses, runPasses_append, preamble_of_escaped escaped, runPasses, Pass.run,
    numbered, protection, Numbering.resolveReferences_of_escaped escapedLater,
    structure_of_escaped escapedLater tidy.stripIndentation_eq,
    Symbol.normalize_of_unsigned escapedLater unpunctuated, tidy.normalizeBlanks_eq]

/-- The conversion of a document stores its insets and leaves what it shows. -/
theorem WellFormed.run_source (options : Options) :
    ∃ reached, run options document.source =
      ({ State.start options with store := reached }, document.output) := by
  have start : document.first.head? ≠ some ' ' := by
    cases spelled : document.first with
    | nil => simp
    | cons c others =>
      have start := wellFormed.start
      rwa [source, spelled] at start
  have sourceBlank := isBlankText_write wellFormed.first_words document.later
    Inset.source_visible start
  have outputBlank := isBlankText_write wellFormed.first_words document.later
    Inset.output_visible start
  by_cases empty : (document.first.isEmpty && document.later.isEmpty) = true
  · -- Nothing is converted, and nothing is what the document consists of.
    have blank : Text.isBlankText document.source = true := sourceBlank.trans empty
    rw [Bool.and_eq_true, List.isEmpty_iff, List.isEmpty_iff] at empty
    rw [run, if_pos blank, output, empty.1, empty.2]
    exact ⟨FragmentStore.empty, rfl⟩
  · have visible : Text.isBlankText document.source = false :=
      sourceBlank.trans (Bool.eq_false_iff.mpr empty)
    obtain ⟨coded, written, code, woven⟩ := wellFormed.run_code options
    let afterCode : State := { State.start options with store := coded }
    have unlabelled : afterCode.labels = .empty := rfl
    obtain ⟨reached, others, between, stored⟩ := wellFormed.run_between unlabelled rfl woven
    have restored := stored.restore wellFormed.first_words wellFormed.later_words
    have outputVisible : Text.isBlankText document.output = false :=
      outputBlank.trans (Bool.eq_false_iff.mpr empty)
    refine ⟨reached, ?_⟩
    rw [run, if_neg (by rw [visible]; exact Bool.false_ne_true), conversionPasses_eq,
      runPasses_append, runPasses_append, code, between]
    simp only [lastPasses, runPasses, Pass.run, restored]
    rw [← output, Text.finishLayout_of_single wellFormed.output_single outputVisible]

end Run

/-- Every inset of a document passes through a conversion by itself: the output
has the texts as they were, a trimmed formula for every formula and escaped code
for all code, whatever the insets hold and however many there are. Nothing is
reported. -/
theorem convert_alternation (options : Options) (document : Alternation)
    (wellFormed : document.WellFormed) :
    (convert options document.source).output = document.output ∧
      (convert options document.source).warnings = [] := by
  obtain ⟨reached, finished⟩ := wellFormed.run_source options
  rw [convert, finished]
  exact ⟨rfl, rfl⟩

/-- A document whose insets hold what the passes look for outside them. -/
def hostileDocument : Alternation :=
  ⟨"see ".toList, [(.formula " a--b~ ".toList, " and ".toList),
    (.code "50% \\title\x7bT\x7d $<".toList, "or".toList), (.formula "``c''".toList, [])]⟩

/-- Dashes, ties, quotation marks, comments and commands inside insets come out
as they went in. -/
theorem convert_hostileDocument : hostileDocument.WellFormed ∧
    (convert .standard hostileDocument.source).output =
      "see $a--b~$ and <code>50% \\title\x7bT\x7d $&lt;</code>or$``c''$".toList ∧
    (convert .standard hostileDocument.source).warnings = [] := by
  have wellFormed : hostileDocument.WellFormed :=
    ⟨by decide, by decide, by decide, by decide, by decide⟩
  have converted := convert_alternation .standard hostileDocument wellFormed
  exact ⟨wellFormed, converted.1.trans (by decide), converted.2⟩

end LatexMarkdown.Document.Alternation
