import LatexMarkdown.Proofs.AbsentStructure
import LatexMarkdown.Proofs.LabelStages
import LatexMarkdown.Proofs.Run

/-!
# A labelled document up to its layout

Before the formulas are stored a labelled document goes through all passes as it is.
Then every formula gives way to a token, every reference to a number and every label
to nothing, so that headings, texts and tokens are left.
-/

namespace LatexMarkdown.Document

open Scan LatexMarkdown.Numbering Alternation

namespace Part

/-- The fragments that are stored for parts, behind a number of formulas. -/
def fragmentsFrom : (equations : Nat) → List Part → List Text
  | _, [] => []
  | equations, heading _ _ :: others => fragmentsFrom equations others
  | equations, paragraph _ :: others => fragmentsFrom equations others
  | equations, equation _ body _ :: others =>
    Math.renderDisplay false (some (equations + 1)) body :: fragmentsFrom (equations + 1) others

/-- The segments of parts once their formulas are stored. -/
def storedFrom : (equations : Nat) → List Part → List Segment
  | _, [] => []
  | equations, heading title key :: others =>
    [.heading title, .label key, blankLine] ++ storedFrom equations others
  | equations, paragraph text :: others => [.text text, blankLine] ++ storedFrom equations others
  | equations, equation lead _ _ :: others =>
    [.text lead, blankLine, .text (Fragment.token equations), blankLine] ++
      storedFrom (equations + 1) others

/-- The paragraphs of parts once their labels are gone as well: headings, texts and
tokens. -/
def paragraphsFrom : (equations : Nat) → List Part → List Segment
  | _, [] => []
  | equations, heading title _ :: others => .heading title :: paragraphsFrom equations others
  | equations, paragraph text :: others => .text text :: paragraphsFrom equations others
  | equations, equation lead _ _ :: others =>
    .text lead :: .text (Fragment.token equations) :: paragraphsFrom (equations + 1) others

end Part

/-- One step after another, over a list and a further list. -/
theorem mapThread_append {σ α β : Type} (step : σ → α → σ × β) (state : σ) (first second : List α) :
    mapThread step state (first ++ second) =
      ((mapThread step (mapThread step state first).1 second).1,
        (mapThread step state first).2 ++
          (mapThread step (mapThread step state first).1 second).2) := by
  induction first generalizing state with
  | nil => rfl
  | cons item others inductionHypothesis =>
    simp only [List.cons_append, mapThread, inductionHypothesis]

/-- Items that a step keeps, with the state, are kept. -/
theorem mapThread_of_kept {σ α : Type} {step : σ → α → σ × α} {state : σ} {items : List α}
    (kept : ∀ item ∈ items, step state item = (state, item)) :
    mapThread step state items = (state, items) := by
  induction items with
  | nil => rfl
  | cons item others inductionHypothesis =>
    rw [List.forall_mem_cons] at kept
    simp only [mapThread, kept.1, inductionHypothesis kept.2]

/-- Every formula is stored under the number of the formulas before it, and shows the
number after that. -/
theorem Part.mapThread_stored {labels : LabelRegistry} (parts : List Part)
    {sections equations : Nat}
    (known : ∀ entry ∈ Part.numbersFrom sections equations parts,
      labels.find? entry.1 = some entry.2)
    {store : FragmentStore} (size : store.size = equations) :
    mapThread (fun state segment => Segment.stored labels state segment) ((), store)
        (parts.flatMap Part.segments) =
      (((), ⟨store.fragments ++ (Part.fragmentsFrom equations parts).toArray⟩),
        Part.storedFrom equations parts) := by
  induction parts generalizing sections equations store with
  | nil => simp [mapThread, Part.fragmentsFrom, Part.storedFrom]
  | cons part others inductionHypothesis =>
    rw [List.flatMap_cons, mapThread_append]
    cases part with
    | heading title key =>
      rw [Part.numbersFrom, List.forall_mem_cons] at known
      have first : mapThread (fun state segment => Segment.stored labels state segment) ((), store)
          (Part.heading title key).segments = (((), store), (Part.heading title key).segments) := rfl
      rw [first, inductionHypothesis known.2 size]
      rfl
    | paragraph text =>
      have first : mapThread (fun state segment => Segment.stored labels state segment) ((), store)
          (Part.paragraph text).segments = (((), store), (Part.paragraph text).segments) := rfl
      rw [first, inductionHypothesis known size]
      rfl
    | equation lead body key =>
      rw [Part.numbersFrom, List.forall_mem_cons] at known
      let fragment := Segment.fragment labels body key
      have shown : fragment = Math.renderDisplay false (some (equations + 1)) body := by
        simp only [fragment, Segment.fragment, known.1, Option.map_some]
      have grown : (store.push fragment).1.size = equations + 1 := by
        simp [FragmentStore.push, FragmentStore.size] at size ⊢
        exact size
      have later := inductionHypothesis known.2 grown
      have first : mapThread (fun state segment => Segment.stored labels state segment) ((), store)
          (Part.equation lead body key).segments =
            (((), (store.push fragment).1),
              [.text lead, Part.blankLine, .text (Fragment.token equations), Part.blankLine]) := by
        rw [← size]
        rfl
      rw [first, later]
      simp [FragmentStore.push, Part.fragmentsFrom, Part.storedFrom, shown]

/-! ## Up to the numbering -/

section Run

variable {document : LabelledDocument} (wellFormed : document.WellFormed)

include wellFormed

/-- There are no comments, no tokens and no code. -/
theorem LabelledDocument.WellFormed.run_code (options : Options) :
    runPasses codePasses (.start options) document.source = (.start options, document.source) := by
  have neutral : Fragment.neutralize document.source = document.source :=
    replaceAll_of_absent
      (Text.not_infix_of_not_mem (wellFormed.not_mem_source (by decide : '@' ∈ _))) _
  have code : Lacks Code.names document.source := wellFormed.spells.lacks (by decide +kernel)
  simp only [codePasses, runPasses, Pass.run, neutral, State.keepStore,
    Code.stripComments_of_absent (wellFormed.not_mem_source (by decide)),
    Code.protect_of_lacks code]

/-- There is no preamble. -/
theorem LabelledDocument.WellFormed.run_preamble (state : State) :
    runPasses preamblePasses state document.source = (state, document.source) :=
  preamble_of_lacks_opening (wellFormed.spells.lacks (by decide +kernel)) state

end Run

/-! ## Storing the formulas -/

/-- Where only numbered formulas are spelled, the pass over formulas stores these. -/
theorem protect_of_equations {colors : ColorTable} {labels : LabelRegistry}
    {store next : FragmentStore} {text written : Text} (square : ¬ Math.brackets.opening <:+: text)
    (stored : edit (Segment.equationRule colors labels) ((), store) text = (((), next), written))
    (unopened : ¬ "\\begin".toList <:+: written) (round : ¬ Math.parentheses.opening <:+: written)
    (dollar : '$' ∉ written) : Math.protect colors labels false store text = (next, written) := by
  have environment (name : Text) (required : Nat) (answer : Environment → Option Text) :
      next.protectEnvironment name 0 required answer written = (next, written) := by
    rw [FragmentStore.protectEnvironment,
      editEnvironment_of_absent (not_infix_beginMarker unopened name)]
  have delimited (delimiters : Delimiters) (answer : Text → Option Text)
      (store : FragmentStore) {text : Text} (absent : ¬ delimiters.opening <:+: text) :
      store.protectDelimited delimiters answer text = (store, text) := by
    rw [FragmentStore.protectDelimited, editDelimited_of_absent absent]
  have double : ¬ Math.doubleDollars.opening <:+: written := Text.not_infix_of_not_mem dollar
  have first : store.protectEnvironment Segment.equationFamily.name.toList 0
      Segment.equationFamily.required (fun environment => some
        (Segment.equationFamily.render colors labels false environment.body)) text =
      (next, written) := by
    have edited : editEnvironment "equation".toList 0 0 (FragmentStore.stored fun (_ : Unit)
        environment => ((), some (Segment.equationFamily.render colors labels false
          environment.body))) ((), store) text = (((), next), written) := stored
    rw [FragmentStore.protectEnvironment]
    exact congrArg (fun result => (result.1.2, result.2)) edited
  have families : Math.families = Segment.equationFamily :: Math.families.tail := rfl
  simp only [Math.protect, delimited _ _ _ square]
  rw [families, List.foldl_cons, first, foldl_fixed_of_mem Math.families.tail]
  · simp only [delimited _ _ _ double, delimited _ _ _ round, environment,
      FragmentStore.protectDollars, editDollars_of_absent dollar]
  · exact fun _ _ => environment ..

namespace Part

/-- What is true of texts, headings and labels made of words and keys, of blank lines and
of tokens is true of the segments behind the storing of formulas. -/
theorem forall_mem_storedFrom {holds : Segment → Prop} {parts : List Part}
    (wellFormed : ∀ part ∈ parts, part.WellFormed)
    (words : ∀ text, IsWordText text → holds (.text text) ∧ holds (.heading text))
    (labels : ∀ key, IsKey key → holds (.label key)) (separator : holds blankLine)
    (tokens : ∀ index, holds (.text (Fragment.token index))) (equations : Nat) :
    ∀ segment ∈ storedFrom equations parts, holds segment := by
  induction parts generalizing equations with
  | nil => exact List.forall_mem_nil _
  | cons part others inductionHypothesis =>
    rw [List.forall_mem_cons] at wellFormed
    have later := inductionHypothesis wellFormed.2
    cases part with
    | heading title key =>
      obtain ⟨titled, -, isKey⟩ := wellFormed.1
      simp only [storedFrom, List.cons_append, List.nil_append, List.forall_mem_cons]
      exact ⟨(words title titled).2, labels key isKey, separator, later equations⟩
    | paragraph text =>
      simp only [storedFrom, List.cons_append, List.nil_append, List.forall_mem_cons]
      exact ⟨(words text wellFormed.1.1).1, separator, later equations⟩
    | equation lead body key =>
      simp only [storedFrom, List.cons_append, List.nil_append, List.forall_mem_cons]
      exact ⟨(words lead wellFormed.1.1).1, separator, tokens equations, separator,
        later (equations + 1)⟩

end Part

/-- A token is a text that can be a segment. -/
theorem Segment.fits_token (index : Nat) : (Segment.text (Fragment.token index)).Fits :=
  Fragment.not_mem_token (by decide) index

namespace LabelledDocument

/-- The segments of a document once its formulas are stored. -/
def storedSegments (document : LabelledDocument) : List Segment :=
  Part.storedFrom 0 document.parts ++ document.references.flatMap Reference.segments

/-- The fragments that a document stores. -/
def fragments (document : LabelledDocument) : FragmentStore :=
  ⟨(Part.fragmentsFrom 0 document.parts).toArray⟩

/-- The heads that are left once the formulas are stored. -/
def storedHeads : List Text :=
  ["section\x7b".toList, "label\x7b".toList] ++ Reference.heads

variable {document : LabelledDocument} (wellFormed : document.WellFormed)

include wellFormed

theorem WellFormed.fits_stored : ∀ segment ∈ document.storedSegments, segment.Fits := by
  intro segment member
  rcases List.mem_append.mp member with inPart | inReference
  · have separator : Part.blankLine.Fits := (by decide : '\\' ∉ ['\n', '\n'])
    exact Part.forall_mem_storedFrom wellFormed.parts
      (fun _ words => ⟨words.isArgument.plain, words.isArgument⟩) (fun _ isKey => isKey) separator
      Segment.fits_token 0 segment inPart
  · obtain ⟨reference, listed, inside⟩ := List.mem_flatMap.mp inReference
    exact Reference.fits (wellFormed.isKey listed) segment inside

theorem WellFormed.heads_stored :
    ∀ segment ∈ document.storedSegments, segment.heads ⊆ storedHeads := by
  have inParts : ∀ segment ∈ Part.storedFrom 0 document.parts, segment.heads ⊆ storedHeads :=
    Part.forall_mem_storedFrom wellFormed.parts
      (fun _ _ => ⟨List.nil_subset _, by simp [Segment.heads, storedHeads]⟩)
      (fun _ _ => by simp [Segment.heads, storedHeads]) (List.nil_subset _)
      (fun _ => List.nil_subset _) 0
  intro segment member
  rcases List.mem_append.mp member with inPart | inReference
  · exact inParts segment inPart
  · obtain ⟨reference, -, inside⟩ := List.mem_flatMap.mp inReference
    exact List.Subset.trans (reference.heads_subset segment inside) (List.subset_append_right _ _)

theorem WellFormed.spells_stored : Spells storedHeads (Segment.sources document.storedSegments) :=
  Segment.spells_sources wellFormed.fits_stored wellFormed.heads_stored

theorem WellFormed.dollar_not_mem_stored : '$' ∉ Segment.sources document.storedSegments := by
  have foreign : '$' ∈ Segment.foreignSigns := by decide
  rw [storedSegments, Segment.sources_append, List.mem_append, not_or]
  refine ⟨Segment.not_mem_sources foreign ?_, wellFormed.not_mem_references foreign⟩
  exact Part.forall_mem_storedFrom wellFormed.parts
    (fun _ words => ⟨words.avoids foreign, words.avoids foreign⟩) (fun _ isKey => isKey.avoids foreign)
    (Part.blankLine_avoids foreign) (fun index => Fragment.not_mem_token (by decide) index) 0

/-- All labels have the numbers of their parts. -/
theorem WellFormed.known {entry : Text × LabelNumber} (listed : entry ∈ document.numbers) :
    KeyedList.find? document.numbers entry.1 = some entry.2 :=
  KeyedList.find?_of_mem wellFormed.distinct listed

/-- The formulas of a document are stored, one after another. -/
theorem WellFormed.stored {labels : LabelRegistry} (numbered : labels.entries = document.numbers)
    (colors : ColorTable) :
    edit (Segment.equationRule colors labels) ((), .empty) document.source =
      (((), document.fragments), Segment.sources document.storedSegments) := by
  let step := fun state segment => Segment.stored labels state segment
  have turns : Turns (Segment.equationRule colors labels) ((), .empty) document.source
      (mapThread step ((), .empty) document.segments).1
      (Segment.sources (mapThread step ((), .empty) document.segments).2) :=
    Turns.flatMap (fun state segment member =>
      Segment.turns_stored colors labels (wellFormed.fits segment member) state) _
  have known : ∀ entry ∈ Part.numbersFrom 0 0 document.parts,
      labels.find? entry.1 = some entry.2 := by
    intro entry listed
    rw [LabelRegistry.find?, numbered]
    exact wellFormed.known listed
  have inParts : mapThread step ((), .empty) (document.parts.flatMap Part.segments) =
      (((), document.fragments), Part.storedFrom 0 document.parts) := by
    have stored := Part.mapThread_stored document.parts known (rfl : FragmentStore.empty.size = 0)
    rw [stored]
    simp [FragmentStore.empty, fragments]
  have inReferences : mapThread step ((), document.fragments)
      (document.references.flatMap Reference.segments) =
        (((), document.fragments), document.references.flatMap Reference.segments) := by
    refine mapThread_of_kept fun segment member => ?_
    obtain ⟨reference, -, inside⟩ := List.mem_flatMap.mp member
    simp only [Reference.segments, List.mem_cons, List.not_mem_nil, or_false] at inside
    rcases inside with rfl | rfl <;> rfl
  have whole : mapThread step ((), .empty) document.segments =
      (((), document.fragments), document.storedSegments) := by
    rw [segments, mapThread_append, inParts, inReferences]
    rfl
  rw [whole] at turns
  exact turns.edit_eq

/-- The formulas are stored, and nothing else is. -/
theorem WellFormed.run_protection {state : State} (standard : state.options.preview = false)
    (empty : state.store = .empty) (numbered : state.labels.entries = document.numbers) :
    runPasses protectionPasses state document.source =
      ({ state with store := document.fragments }, Segment.sources document.storedSegments) := by
  have links : Lacks ["url".toList, "href".toList, "includegraphics".toList] document.source :=
    wellFormed.spells.lacks (by decide +kernel)
  have tables : ∀ family ∈ Table.families,
      ¬ beginMarker family.name.toList <:+: document.source := by
    have lacks : Lacks (Table.families.map fun family =>
        "begin".toList ++ '\x7b' :: family.name.toList ++ ['\x7d']) document.source :=
      wellFormed.spells.lacks (by decide +kernel)
    exact fun family listed => lacks _ (List.mem_map.mpr ⟨family, listed, rfl⟩)
  have others : Lacks ["begin\x7barray\x7d".toList, "[".toList] document.source :=
    wellFormed.spells.lacks (by decide +kernel)
  have later : Lacks ["begin".toList, "(".toList] (Segment.sources document.storedSegments) :=
    wellFormed.spells_stored.lacks (by decide +kernel)
  have formulas : Math.protect state.colors state.labels state.options.preview state.store
      document.source = (document.fragments, Segment.sources document.storedSegments) := by
    rw [standard, empty]
    exact protect_of_equations (others _ (by decide)) (wellFormed.stored numbered state.colors)
      (later _ (by decide)) (later _ (by decide)) wellFormed.dollar_not_mem_stored
  have arrays : ¬ beginMarker "array".toList <:+: document.source := others _ (by decide)
  simp only [protectionPasses, runPasses, Pass.run, State.keepStore,
    Link.protect_of_absent (links _ (by decide)) (links _ (by decide)) (links _ (by decide)),
    Table.protect_of_absent tables, Table.protectArrays_of_absent arrays, formulas]

/-! ## Resolving the references -/

end LabelledDocument

/-- Segments that the passes over references may meet: no formulas, and references to
known labels only. -/
structure Referring (numbers : KeyedList LabelNumber) (segments : List Segment) : Prop where
  fits : ∀ segment ∈ segments, segment.Fits
  heads : ∀ segment ∈ segments, segment.heads ⊆ LabelledDocument.storedHeads
  outside : ∀ body key, .equation body key ∉ segments
  known : ∀ parentheses key, .reference parentheses key ∈ segments →
    (KeyedList.find? numbers key).isSome = true

namespace Referring

variable {numbers : KeyedList LabelNumber} {segments : List Segment}

theorem lacks (referring : Referring numbers segments) {names : List Text}
    (foreign : ∀ name ∈ names, ∀ head ∈ LabelledDocument.storedHeads,
      ¬ name <+: head ∧ ¬ head <+: name) : Lacks names (Segment.sources segments) :=
  (Segment.spells_sources referring.fits referring.heads).lacks foreign

theorem resolved (referring : Referring numbers segments) (wanted : Bool) :
    Referring numbers (segments.map (Segment.resolved numbers wanted)) where
  fits segment member := by
    obtain ⟨original, listed, rfl⟩ := List.mem_map.mp member
    exact (Segment.resolved_fits numbers wanted (referring.fits original listed)).1
  heads segment member := by
    obtain ⟨original, listed, rfl⟩ := List.mem_map.mp member
    exact List.Subset.trans
      (Segment.resolved_fits numbers wanted (referring.fits original listed)).2
      (referring.heads original listed)
  outside body key member :=
    referring.outside body key (Segment.mem_of_mem_resolved member fun _ => Segment.noConfusion)
  known parentheses key member :=
    referring.known parentheses key
      (Segment.mem_of_mem_resolved member fun _ => Segment.noConfusion)

/-- All references give way to numbers and all labels are dropped. -/
theorem resolveReferences_eq (referring : Referring numbers segments) {labels : LabelRegistry}
    (numbered : labels.entries = numbers) (citations : CitationRegistry)
    (warnings : List Warning) :
    resolveReferences labels citations warnings (Segment.sources segments) =
      (warnings, Segment.sources (((segments.map (Segment.resolved numbers false)).map
        (Segment.resolved numbers true)).map Segment.unlabelled)) := by
  subst numbered
  have bare := referring.resolved false
  have both := bare.resolved true
  have always {text name : Text} (absent : ¬ ('\\' :: name) <:+: text)
      (maxOptions required : Nat) (answer : List Warning → Arguments → List Warning × Text) :
      editAlways name maxOptions required answer warnings text = (warnings, text) :=
    editCommand_of_absent absent ..
  have cited : Lacks citationNames (Segment.sources segments) := referring.lacks (by decide +kernel)
  have further : Lacks referenceNames.tail
      (Segment.sources (segments.map (Segment.resolved labels.entries false))) :=
    bare.lacks (by decide +kernel)
  have paged : Lacks ["pageref".toList]
      (Segment.sources ((segments.map (Segment.resolved labels.entries false)).map
        (Segment.resolved labels.entries true))) := both.lacks (by decide +kernel)
  have first : editAlways "ref".toList 0 1 (renderReference labels) warnings
      (Segment.sources segments) = _ :=
    Segment.editAlways_references false referring.fits referring.known warnings
  have second := Segment.editAlways_references true bare.fits bare.known warnings
  have third : editAlways "eqref".toList 0 1 (renderEquationReference labels) warnings
      (Segment.sources (segments.map (Segment.resolved labels.entries false))) = _ :=
    second
  have names : referenceNames = "ref".toList :: referenceNames.tail := rfl
  rw [resolveReferences, foldl_fixed_of_mem citationNames fun name listed =>
    always (cited name listed) ..]
  simp only
  rw [names, List.foldl_cons, first, foldl_fixed_of_mem referenceNames.tail fun name listed =>
    always (further name listed) ..]
  simp only
  rw [third]
  simp only
  rw [always (paged _ (List.mem_singleton_self _)), Segment.dropLabels_sources both.fits both.outside]

end Referring

namespace LabelledDocument

variable {document : LabelledDocument} (wellFormed : document.WellFormed)

include wellFormed

/-- No formulas are left, and the references are those of the last paragraph. -/
theorem WellFormed.refers : Referring document.numbers document.storedSegments := by
  have inParts : ∀ segment ∈ Part.storedFrom 0 document.parts,
      (∀ body key, segment ≠ .equation body key) ∧
        ∀ parentheses key, segment ≠ .reference parentheses key :=
    Part.forall_mem_storedFrom wellFormed.parts (fun _ _ => by simp) (fun _ _ => by simp)
      (by simp [Part.blankLine]) (fun _ => by simp) 0
  have inReferences {segment : Segment}
      (member : segment ∈ document.references.flatMap Reference.segments) :
      ∃ reference ∈ document.references, segment = .text reference.gap ∨
        segment = .reference reference.parentheses reference.key := by
    obtain ⟨reference, listed, inside⟩ := List.mem_flatMap.mp member
    simp only [Reference.segments, List.mem_cons, List.not_mem_nil, or_false] at inside
    exact ⟨reference, listed, inside⟩
  refine ⟨wellFormed.fits_stored, wellFormed.heads_stored, fun body key member => ?_,
    fun parentheses key member => ?_⟩
  · rcases List.mem_append.mp member with inPart | inReference
    · exact (inParts _ inPart).1 body key rfl
    · obtain ⟨_, -, same | same⟩ := inReferences inReference <;> cases same
  · rcases List.mem_append.mp member with inPart | inReference
    · exact absurd rfl ((inParts _ inPart).2 parentheses key)
    · obtain ⟨reference, listed, same | same⟩ := inReferences inReference
      · cases same
      · cases same
        obtain ⟨entry, declared, same⟩ := List.mem_map.mp (wellFormed.declared reference listed)
        rw [← same, wellFormed.known declared]
        rfl

end LabelledDocument

end LatexMarkdown.Document
