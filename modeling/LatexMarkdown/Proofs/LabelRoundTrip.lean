import LatexMarkdown.Proofs.LabelLayout

/-!
# Labels and references in a whole document

Every reference to a labelled document's heading or formula shows the number of that
heading or formula, formulas carry theirs as tags, nothing of the labels is left, and
nothing is reported.
-/

namespace LatexMarkdown.Document

open Scan LatexMarkdown.Numbering Alternation

/-! ## The paragraph of references -/

namespace Reference

variable {numbers : KeyedList LabelNumber} {reference : Reference}

/-- The number of a declared label is written with digits and parentheses. -/
theorem mem_shown (declared : reference.key ∈ numbers.map Prod.fst) {c : Char}
    (member : c ∈ reference.shown numbers) : c.isDigit = true ∨ c ∈ ['(', ')'] := by
  have enclosed {number : Nat} (inside : c ∈ '(' :: Text.ofNat number ++ [')']) :
      c.isDigit = true ∨ c ∈ ['(', ')'] := by
    rw [List.cons_append, List.mem_cons, List.mem_append, List.mem_singleton] at inside
    rcases inside with rfl | digit | rfl
    · exact Or.inr (by decide)
    · exact Or.inl (Fragment.isDigit_of_mem_ofNat digit)
    · exact Or.inr (by decide)
  rw [shown] at member
  split at member
  next unknown =>
    obtain ⟨label, found⟩ := KeyedList.exists_find? declared
    rw [found] at unknown
    exact absurd unknown (Option.some_ne_none label)
  next label _ =>
    split at member
    · exact enclosed member
    · obtain ⟨kind, number⟩ := label
      cases kind with
      | heading => exact Or.inl (Fragment.isDigit_of_mem_ofNat member)
      | equation => exact enclosed member

theorem shown_ne_nil (numbers : KeyedList LabelNumber) (reference : Reference) :
    reference.shown numbers ≠ [] := by
  rw [shown]
  split
  · decide
  next label _ =>
    split
    · exact List.cons_ne_nil _ _
    · obtain ⟨kind, number⟩ := label
      cases kind with
      | heading => exact Fragment.ofNat_ne_nil number
      | equation => exact List.cons_ne_nil _ _

end Reference

/-- References with their numbers in their place. -/
def referenceLine (numbers : KeyedList LabelNumber) (references : List Reference) : Text :=
  references.flatMap fun reference => reference.gap ++ reference.shown numbers

section ReferenceLine

variable {numbers : KeyedList LabelNumber} {references : List Reference}
  (declared : ∀ reference ∈ references, reference.key ∈ numbers.map Prod.fst)

include declared

/-- Only digits, parentheses and spaces are in a line of references. -/
theorem mem_referenceLine {c : Char} (member : c ∈ referenceLine numbers references) :
    c.isDigit = true ∨ c ∈ ['(', ')', ' '] := by
  obtain ⟨reference, listed, inside⟩ := List.mem_flatMap.mp member
  rcases List.mem_append.mp inside with space | shown
  · rw [Reference.gap] at space
    split at space
    · rw [List.mem_singleton.mp space]
      exact Or.inr (by decide)
    · exact absurd space List.not_mem_nil
  · refine (Reference.mem_shown (declared reference listed) shown).imp_right fun parenthesis => ?_
    exact (List.prefix_append ['(', ')'] [' ']).subset parenthesis

/-- Signs of commands, tokens and lines are not in a line of references. -/
theorem not_mem_referenceLine {sign : Char}
    (foreign : sign.isDigit = false ∧ sign ∉ ['(', ')', ' ']) :
    sign ∉ referenceLine numbers references := by
  intro member
  rcases mem_referenceLine declared member with digit | other
  · rw [foreign.1] at digit
    exact Bool.noConfusion digit
  · exact foreign.2 other

/-- The numbers of a line of references stand apart by single spaces. -/
theorem isLine_referenceLine : Text.IsLine (referenceLine numbers references) := by
  induction references with
  | nil => exact Text.IsLine.nil
  | cons reference others inductionHypothesis =>
    rw [List.forall_mem_cons] at declared
    have later := inductionHypothesis declared.2
    have characters {c : Char} (member : c ∈ reference.shown numbers) :=
      Reference.mem_shown declared.1 member
    have visible : ∀ c ∈ reference.shown numbers, Text.isBlank c = false := by
      intro c member
      rcases characters member with digit | parenthesis
      · exact Text.isBlank_of_isDigit digit
      · have signs : ∀ sign ∈ ['(', ')'], Text.isBlank sign = false := by decide
        exact signs c parenthesis
    have unmarked : ∀ sign ∈ Text.lineMarks, sign ∉ reference.shown numbers := by
      intro sign listed member
      have foreign : ∀ sign ∈ Text.lineMarks, sign.isDigit = false ∧ sign ∉ ['(', ')'] := by decide
      rcases characters member with digit | parenthesis
      · rw [(foreign sign listed).1] at digit
        exact Bool.noConfusion digit
      · exact (foreign sign listed).2 parenthesis
    have line := later.append_left visible unmarked
    rw [referenceLine, List.flatMap_cons, List.append_assoc, ← referenceLine, Reference.gap]
    split
    · refine line.cons_space fun head => ?_
      rw [List.head?_append_of_ne_nil _ (Reference.shown_ne_nil numbers reference)] at head
      have blank := visible ' ' (List.mem_of_head? head)
      exact absurd blank (by decide)
    · exact line

/-- A number is visible. -/
theorem isBlankText_referenceLine (referring : references ≠ []) :
    Text.isBlankText (referenceLine numbers references) = false := by
  obtain ⟨reference, others, rfl⟩ := List.exists_cons_of_ne_nil referring
  obtain ⟨c, shown, same⟩ := List.exists_cons_of_ne_nil (Reference.shown_ne_nil numbers reference)
  have member : c ∈ reference.shown numbers := by
    rw [same]
    exact List.mem_cons_self ..
  refine List.all_eq_false.mpr ⟨c, ?_, ?_⟩
  · exact List.mem_flatMap.mpr ⟨reference, List.mem_cons_self .., List.mem_append_right _ member⟩
  · rcases Reference.mem_shown (declared reference (List.mem_cons_self ..)) member with
      digit | parenthesis
    · rw [Text.isBlank_of_isDigit digit]
      exact Bool.false_ne_true
    · have signs : ∀ sign ∈ ['(', ')'], Text.isBlank sign ≠ true := by decide
      exact signs c parenthesis

end ReferenceLine

/-! ## Settled segments -/

namespace Segment

/-- What becomes of a segment when references and labels are gone. -/
def settled (numbers : KeyedList LabelNumber) (segment : Segment) : Segment :=
  ((segment.resolved numbers false).resolved numbers true).unlabelled

end Segment

/-- Of parts their paragraphs are left. -/
theorem Part.sources_settled (numbers : KeyedList LabelNumber) (parts : List Part)
    (equations : Nat) (last : Text) :
    Segment.sources ((Part.storedFrom equations parts).map (Segment.settled numbers)) ++ last =
      Segment.sources (Segment.separated (Part.paragraphsFrom equations parts) last) := by
  induction parts generalizing equations with
  | nil => exact (List.append_nil last).symm
  | cons part others inductionHypothesis =>
    cases part with
    | heading title key =>
      have later := inductionHypothesis equations
      simp [Part.storedFrom, Part.paragraphsFrom, Segment.separated_cons, Segment.settled,
        Segment.resolved, Segment.unlabelled, Part.blankLine, Segment.source, ← later]
    | paragraph text =>
      have later := inductionHypothesis equations
      simp [Part.storedFrom, Part.paragraphsFrom, Segment.separated_cons, Segment.settled,
        Segment.resolved, Segment.unlabelled, Part.blankLine, Segment.source, ← later]
    | equation lead body key =>
      have later := inductionHypothesis (equations + 1)
      simp [Part.storedFrom, Part.paragraphsFrom, Segment.separated_cons, Segment.settled,
        Segment.resolved, Segment.unlabelled, Part.blankLine, Segment.source, ← later]

/-- Of references their numbers are left. -/
theorem Reference.sources_settled (numbers : KeyedList LabelNumber) (references : List Reference) :
    Segment.sources ((references.flatMap Reference.segments).map (Segment.settled numbers)) =
      referenceLine numbers references := by
  rw [Segment.sources, List.flatMap_map, List.flatMap_assoc, referenceLine]
  refine List.flatMap_congr fun reference _ => ?_
  cases parentheses : reference.parentheses <;>
    simp [Reference.segments, Segment.settled, Segment.resolved, Segment.unlabelled, Segment.source,
      Reference.shown, parentheses]

/-- What is left of parts are paragraphs. -/
theorem Part.isParagraph {parts : List Part} (wellFormed : ∀ part ∈ parts, part.WellFormed)
    (equations : Nat) :
    ∀ paragraph ∈ Part.paragraphsFrom equations parts, paragraph.IsParagraph := by
  induction parts generalizing equations with
  | nil => exact List.forall_mem_nil _
  | cons part others inductionHypothesis =>
    rw [List.forall_mem_cons] at wellFormed
    have later := inductionHypothesis wellFormed.2
    cases part with
    | heading title key =>
      rw [Part.paragraphsFrom, List.forall_mem_cons]
      exact ⟨wellFormed.1.1, later equations⟩
    | paragraph text =>
      obtain ⟨words, visible⟩ := wellFormed.1
      rw [Part.paragraphsFrom, List.forall_mem_cons]
      exact ⟨⟨words.isLine, visible, words.isArgument.plain⟩, later equations⟩
    | equation lead body key =>
      obtain ⟨words, long, -⟩ := wellFormed.1
      rw [Part.paragraphsFrom, List.forall_mem_cons, List.forall_mem_cons]
      exact ⟨⟨words.isLine, words.isBlankText_eq (le_trans (by decide) long),
        words.isArgument.plain⟩, Segment.IsParagraph.token equations, later (equations + 1)⟩

/-- What is shown of parts has no commands but the tags of formulas. -/
theorem Part.spells_shownFrom {parts : List Part} (wellFormed : ∀ part ∈ parts, part.WellFormed)
    (equations : Nat) :
    ∀ content ∈ Part.shownFrom equations parts, Spells ["tag\x7b".toList] content := by
  have trimmed {text : Text} (plain : '\\' ∉ text) :
      Spells ["tag\x7b".toList] (Text.trim text) :=
    .of_plain fun member => plain ((Text.trim_infix text).subset member)
  induction parts generalizing equations with
  | nil => exact List.forall_mem_nil _
  | cons part others inductionHypothesis =>
    rw [List.forall_mem_cons] at wellFormed
    have later := inductionHypothesis wellFormed.2
    cases part with
    | heading title key =>
      have title : (Segment.heading title).IsParagraph := wellFormed.1.1
      rw [Part.shownFrom, List.forall_mem_cons]
      exact ⟨trimmed title.line.2.2, later equations⟩
    | paragraph text =>
      rw [Part.shownFrom, List.forall_mem_cons]
      exact ⟨trimmed wellFormed.1.1.isArgument.plain, later equations⟩
    | equation lead body key =>
      obtain ⟨words, -, letters, -⟩ := wellFormed.1
      have digits : '\\' ∉ Text.ofNat (equations + 1) := fun member =>
        absurd (Fragment.isDigit_of_mem_ofNat member) (by decide)
      have plain : '\\' ∉ body := letters.not_mem (by decide)
      have before : '\\' ∉ "$$\n".toList ++ body ++ [' '] := by
        simp [plain]
      have tag : Spells ["tag\x7b".toList] ('\\' :: ("tag\x7b".toList ++
          (Text.ofNat (equations + 1) ++ "\x7d\n$$".toList))) :=
        .command (List.mem_singleton_self _) (by simp [digits])
      have formula : Part.shownFormula (equations + 1) body = ("$$\n".toList ++ body ++ [' ']) ++
          '\\' :: ("tag\x7b".toList ++ (Text.ofNat (equations + 1) ++ "\x7d\n$$".toList)) := by
        simp [Part.shownFormula_eq]
      rw [Part.shownFrom, List.forall_mem_cons, List.forall_mem_cons, formula]
      exact ⟨trimmed words.isArgument.plain, (Spells.of_plain before).append tag,
        later (equations + 1)⟩

/-! ## The whole conversion -/

namespace LabelledDocument

variable {document : LabelledDocument}

/-- The paragraphs of a document. -/
def paragraphs (document : LabelledDocument) : List Segment :=
  Part.paragraphsFrom 0 document.parts

/-- The empty line before a heading at the start. -/
def opening (document : LabelledDocument) : Text :=
  List.replicate (min (Segment.breaksBefore document.paragraphs) 1) '\n'

theorem output_eq (document : LabelledDocument) : document.output = document.opening ++
    Text.joinWith ['\n', '\n'] (Part.shownFrom 0 document.parts ++ [document.shownReferences]) := by
  rw [output, opening, paragraphs]
  congr 1
  cases document.parts with
  | nil => rfl
  | cons part others => cases part <;> rfl

namespace WellFormed

variable (wellFormed : document.WellFormed)

include wellFormed

/-- A document refers to something, so that it is not blank. -/
theorem isBlankText_source : Text.isBlankText document.source = false := by
  obtain ⟨reference, others, listed⟩ := List.exists_cons_of_ne_nil wellFormed.referring
  have first : reference ∈ document.references := by
    rw [listed]
    exact List.mem_cons_self ..
  have spelled : '\\' ∈ Segment.sources (document.references.flatMap Reference.segments) := by
    refine List.mem_flatMap.mpr ⟨.reference reference.parentheses reference.key, ?_, ?_⟩
    · exact List.mem_flatMap.mpr ⟨reference, first, List.mem_of_getLast? rfl⟩
    · exact List.mem_cons_self ..
  refine List.all_eq_false.mpr ⟨'\\', ?_, by decide⟩
  rw [source_eq]
  exact List.mem_append_right _ spelled

/-- Up to the structure the document becomes its paragraphs and its line of references. -/
theorem run_settled {options : Options} (standard : options.preview = false) :
    ∃ sections equations,
      runPasses (preamblePasses ++ [Pass.numberKeys] ++ protectionPasses ++
          [Pass.resolveReferences]) (.start options) document.source =
        ({ State.start options with
            labels := ⟨document.numbers, sections, equations⟩, store := document.fragments },
          Segment.sources (Segment.separated document.paragraphs
            (referenceLine document.numbers document.references))) := by
  obtain ⟨sections, equations, numbered⟩ := wellFormed.number_eq (.start options)
  refine ⟨sections, equations, ?_⟩
  let known : LabelRegistry := ⟨document.numbers, sections, equations⟩
  let numberedState : State := { State.start options with labels := known }
  have unstored : numberedState.store = .empty := rfl
  have stored := wellFormed.run_protection (standard : numberedState.options.preview = false)
    unstored rfl
  have settled : Segment.sources (((document.storedSegments.map
      (Segment.resolved document.numbers false)).map
        (Segment.resolved document.numbers true)).map Segment.unlabelled) =
      Segment.sources (Segment.separated document.paragraphs
        (referenceLine document.numbers document.references)) := by
    rw [List.map_map, List.map_map]
    have steps : (Segment.unlabelled ∘ Segment.resolved document.numbers true) ∘
        Segment.resolved document.numbers false = Segment.settled document.numbers := rfl
    rw [steps, storedSegments, List.map_append, Segment.sources_append, Reference.sources_settled]
    exact Part.sources_settled ..
  have same : known.entries = document.numbers := rfl
  have resolved := wellFormed.refers.resolveReferences_eq same .empty []
  rw [settled] at resolved
  simp only [runPasses_append, wellFormed.run_preamble, runPasses, Pass.run]
  rw [numbered]
  simp only [numberedState, known, State.start] at stored resolved ⊢
  rw [stored]
  simp only [resolved]

/-- The passes behind the references convert and trim the paragraphs. -/
theorem run_layout (state : State) :
    runPasses (structurePasses ++ [Pass.normalizeSymbols, .normalizeBlanks]) state
        (Segment.sources (Segment.separated document.paragraphs
          (referenceLine document.numbers document.references))) =
      (state, List.replicate (Segment.breaksBefore document.paragraphs) '\n' ++
        Text.joinWith ['\n', '\n'] (document.paragraphs.map (Text.trim ∘ Segment.line) ++
          [document.shownReferences])) := by
  let last := referenceLine document.numbers document.references
  have isParagraph : ∀ paragraph ∈ document.paragraphs, paragraph.IsParagraph :=
    Part.isParagraph wellFormed.parts 0
  have unindented : ∀ paragraph ∈ document.paragraphs.map Segment.unindented,
      paragraph.IsParagraph := by
    rw [List.forall_mem_map]
    exact fun paragraph listed => (isParagraph paragraph listed).unindented
  have isLine : Text.IsLine last := isLine_referenceLine wellFormed.declared
  have plain : '\\' ∉ last := not_mem_referenceLine wellFormed.declared (by decide)
  have visible : Text.isBlankText last = false :=
    isBlankText_referenceLine wellFormed.declared wellFormed.referring
  -- A line of references is no list item, so that it loses all blanks before it.
  have start : Text.withoutIndentation last = Text.trimStart last := isLine.withoutIndentation_eq
  have startInside : Text.trimStart last <:+ last := List.dropWhile_suffix _
  have startVisible : Text.isBlankText (Text.trimStart last) = false := by
    obtain ⟨c, inside, seen⟩ := List.all_eq_false.mp (Text.isBlankText_trim visible)
    exact List.all_eq_false.mpr ⟨c, (Text.trimEnd_front _).subset inside, seen⟩
  have trimmed : Text.trim (Text.trimStart last) = document.shownReferences := by
    have bare : Text.trimStart (Text.trimStart last) = Text.trimStart last :=
      List.dropWhile_idempotent _ last
    rw [Text.trim, bare, ← Text.trim]
    rfl
  have lines : (document.paragraphs.map Segment.unindented).map (Text.trim ∘ Segment.line) =
      document.paragraphs.map (Text.trim ∘ Segment.line) := by
    rw [List.map_map]
    exact List.map_congr_left fun paragraph listed =>
      (isParagraph paragraph listed).trim_unindented
  have breaks : Segment.breaksBefore (document.paragraphs.map Segment.unindented) =
      Segment.breaksBefore document.paragraphs := by
    cases document.paragraphs with
    | nil => rfl
    | cons paragraph others => cases paragraph <;> rfl
  have blanks := Segment.run_blanks unindented (isLine.of_infix startInside.isInfix) startVisible
    (fun member => plain (startInside.subset member)) state
  rw [runPasses_append, Segment.run_structure isParagraph isLine.single plain state, start, blanks,
    breaks, List.map_append, List.map_map, lines, List.map_singleton, trimmed]

/-- The formulas come back in the place of their tokens, and the layout keeps them. -/
theorem finishLayout_eq :
    Text.finishLayout (document.fragments.restore
        (List.replicate (Segment.breaksBefore document.paragraphs) '\n' ++
          Text.joinWith ['\n', '\n'] (document.paragraphs.map (Text.trim ∘ Segment.line) ++
            [document.shownReferences]))) = document.output := by
  have unsigned : '@' ∉ document.shownReferences := fun member =>
    not_mem_referenceLine wellFormed.declared (by decide)
      ((Text.trim_infix (referenceLine document.numbers document.references)).subset member)
  have breaks : '@' ∉ List.replicate (Segment.breaksBefore document.paragraphs) '\n' :=
    fun member => absurd (List.eq_of_mem_replicate member) (by decide)
  have found : ∀ index fragment, (Part.fragmentsFrom 0 document.parts)[index]? = some fragment →
      document.fragments.get? (0 + index) = some fragment := by
    intro index fragment listed
    rw [Nat.zero_add, FragmentStore.get?, fragments, List.getElem?_toArray]
    exact listed
  have spread := Part.spread_restore wellFormed.parts found unsigned
  have solid : ∀ content ∈ Part.shownFrom 0 document.parts ++ [document.shownReferences],
      Text.Solid content := by
    rw [List.forall_mem_append, List.forall_mem_singleton]
    refine ⟨Part.solid_shownFrom wellFormed.parts 0, ?_⟩
    exact (isLine_referenceLine wellFormed.declared).solid_trim
      (isBlankText_referenceLine wellFormed.declared wellFormed.referring)
  rw [FragmentStore.restore_append breaks, output_eq, opening]
  exact spread.finishLayout solid _

/-- The only commands in the output are the tags of formulas. -/
theorem spells_output : Spells ["tag\x7b".toList] document.output := by
  have breaks : '\\' ∉ document.opening := fun member =>
    absurd (List.eq_of_mem_replicate member) (by decide)
  have references : '\\' ∉ document.shownReferences := fun member =>
    not_mem_referenceLine wellFormed.declared (by decide)
      ((Text.trim_infix (referenceLine document.numbers document.references)).subset member)
  rw [output_eq]
  refine (Spells.of_plain breaks).append (Spells.joinWith (by decide) ?_)
  rw [List.forall_mem_append, List.forall_mem_singleton]
  exact ⟨Part.spells_shownFrom wellFormed.parts 0, .of_plain references⟩

end WellFormed

/-- Labels and references agree over a whole document: every reference shows the number
of its heading or formula, every formula carries its number as a tag, no label is left,
and nothing is reported. -/
theorem convert_labelled (document : LabelledDocument) (wellFormed : document.WellFormed) :
    (convert .standard document.source).output = document.output ∧
      ¬ "\\label".toList <:+: document.output ∧
      (convert .standard document.source).warnings = [] := by
  have whole : Options.standard.preview = false := rfl
  obtain ⟨sections, equations, settled⟩ := wellFormed.run_settled whole
  have finished : run .standard document.source =
      ({ State.start .standard with
          labels := ⟨document.numbers, sections, equations⟩, store := document.fragments },
        document.output) := by
    have passes : middlePasses = (preamblePasses ++ [Pass.numberKeys] ++ protectionPasses ++
        [Pass.resolveReferences]) ++
          (structurePasses ++ [Pass.normalizeSymbols, .normalizeBlanks]) := rfl
    rw [run, if_neg (by rw [wellFormed.isBlankText_source]; exact Bool.false_ne_true),
      conversionPasses_eq, runPasses_append, runPasses_append, wellFormed.run_code, passes,
      runPasses_append, settled, wellFormed.run_layout]
    simp only [lastPasses, runPasses, Pass.run, wellFormed.finishLayout_eq]
  have lacks : Lacks ["label".toList] document.output := wellFormed.spells_output.lacks (by decide)
  rw [convert, finished]
  exact ⟨rfl, lacks _ (List.mem_singleton_self _), rfl⟩

/-- Headings and formulas in turn, and references to all of them. -/
def twoKinds : LabelledDocument where
  parts := [.heading "Intro duction".toList "s:1".toList,
    .equation "here are some letters to keep the heading far enough away".toList "abc".toList
      "e:1".toList,
    .paragraph "in between".toList, .heading "Second".toList "s:2".toList,
    .equation "here are some letters to keep the heading far enough away".toList "xyz".toList
      "e:2".toList]
  references := [⟨false, false, "s:2".toList⟩, ⟨true, false, "e:1".toList⟩,
    ⟨true, true, "e:2".toList⟩, ⟨false, true, "s:1".toList⟩]

/-- Sections and formulas are counted apart. -/
theorem convert_twoKinds : twoKinds.WellFormed ∧
    (convert .standard twoKinds.source).output = twoKinds.output ∧
    twoKinds.shownReferences = "2 (1) (2)(1)".toList := by
  have wellFormed : twoKinds.WellFormed := ⟨by decide, by decide, by decide, by decide⟩
  exact ⟨wellFormed, (convert_labelled twoKinds wellFormed).1, by decide⟩

end LabelledDocument

end LatexMarkdown.Document
