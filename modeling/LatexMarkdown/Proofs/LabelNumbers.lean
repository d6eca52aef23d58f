import LatexMarkdown.Proofs.LabelledDocument

/-!
# The numbers of labels

The labels of a text are found piece by piece, each with what stands before it. In a
labelled document a heading lies within the window before its label, and the
paragraph before a formula keeps all headings out of it, so that the labels get the
numbers of their own kind, one after another.
-/

namespace LatexMarkdown

open Scan

namespace KeyedList

variable {α : Type} {entries : KeyedList α} {key : Text}

/-- A key that is not there has no value. -/
theorem find?_eq_none (absent : key ∉ entries.map Prod.fst) : find? entries key = none := by
  induction entries with
  | nil => rfl
  | cons entry others inductionHypothesis =>
    rw [List.map_cons, List.mem_cons, not_or] at absent
    rw [find?, if_neg (Ne.symm absent.1), inductionHypothesis absent.2]

/-- A key that is there has a value. -/
theorem exists_find? (listed : key ∈ entries.map Prod.fst) :
    ∃ value, find? entries key = some value := by
  induction entries with
  | nil => exact absurd listed List.not_mem_nil
  | cons entry others inductionHypothesis =>
    by_cases same : entry.1 = key
    · exact ⟨entry.2, if_pos same⟩
    · obtain ⟨value, found⟩ :=
        inductionHypothesis ((List.mem_cons.mp listed).resolve_left (Ne.symm same))
      exact ⟨value, (if_neg same).trans found⟩

/-- Every value is found under its key, if no key is there twice. -/
theorem find?_of_mem (distinct : (entries.map Prod.fst).Nodup) {entry : Text × α}
    (listed : entry ∈ entries) : find? entries entry.1 = some entry.2 := by
  induction entries with
  | nil => exact absurd listed List.not_mem_nil
  | cons first others inductionHypothesis =>
    rw [List.map_cons, List.nodup_cons] at distinct
    rcases List.mem_cons.mp listed with rfl | later
    · exact if_pos rfl
    · have different : first.1 ≠ entry.1 := fun same =>
        distinct.1 (same ▸ List.mem_map_of_mem later)
      rw [find?, if_neg different, inductionHypothesis distinct.2 later]

/-- A key that is not there is put at the end. -/
theorem put_eq_append (absent : key ∉ entries.map Prod.fst) (value : α) :
    put entries key value = entries ++ [(key, value)] := by
  induction entries with
  | nil => rfl
  | cons entry others inductionHypothesis =>
    rw [List.map_cons, List.mem_cons, not_or] at absent
    rw [put, if_neg (Ne.symm absent.1), inductionHypothesis absent.2, List.cons_append]

end KeyedList

namespace Numbering

/-- A list of a single key. -/
theorem splitKeys_of_single {key : Text} (nonempty : key ≠ []) (single : ',' ∉ key)
    (trimmed : Text.trim key = key) : splitKeys key = [key] := by
  have filled : key.isEmpty = false := by
    simpa [List.isEmpty_iff] using nonempty
  rw [splitKeys, Text.splitOn_of_not_mem single, List.map_singleton, trimmed]
  simp [filled]

section Known

variable {labels : LabelRegistry} {key : Text} {label : LabelNumber}
  (known : labels.find? key = some label) (trimmed : Text.trim key = key)

include known

/-- A known key is resolved to its number, and nothing is reported. -/
theorem resolveLabel_known (warnings : List Warning) :
    resolveLabel labels warnings key = (warnings, label.render) := by
  rw [resolveLabel, known]

include trimmed

/-- A reference to a single known key shows its number. -/
theorem renderReference_known (nonempty : key ≠ []) (single : ',' ∉ key)
    (warnings : List Warning) :
    renderReference labels warnings ⟨false, [], [key]⟩ = (warnings, label.render) := by
  have argument : (⟨false, [], [key]⟩ : Arguments).argument 0 = key := rfl
  have keys : splitKeys key = [key] := splitKeys_of_single nonempty single trimmed
  simp only [renderReference, argument, keys, mapThread, resolveLabel_known known, Text.joinWith]

/-- A reference to a known equation has one pair of parentheses, whatever is numbered. -/
theorem renderEquationReference_known (warnings : List Warning) :
    renderEquationReference labels warnings ⟨false, [], [key]⟩ =
      (warnings, '(' :: Text.ofNat label.number ++ [')']) := by
  have argument : (⟨false, [], [key]⟩ : Arguments).argument 0 = key := rfl
  have parenthesized : (if label.render.head? = some '(' then (warnings, label.render)
      else (warnings, '(' :: label.render ++ [')'])) =
        (warnings, '(' :: Text.ofNat label.number ++ [')']) := by
    obtain ⟨kind, number⟩ := label
    cases kind with
    | equation => exact if_pos rfl
    | heading =>
      refine if_neg fun opened => ?_
      have digit := Fragment.isDigit_of_mem_ofNat (List.mem_of_head? opened)
      exact absurd digit (by decide)
  simp only [renderEquationReference, argument, trimmed, resolveLabel_known known, parenthesized]

end Known

/-! ## Finding labels -/

/-- Covered characters are passed over. -/
theorem keysFrom_covered (read : Text → Option (Text × Text)) (before covered rest : Text) :
    keysFrom read before covered.length (covered ++ rest) =
      keysFrom read (covered.reverse ++ before) 0 rest := by
  induction covered generalizing before with
  | nil => rfl
  | cons c others inductionHypothesis =>
    rw [List.cons_append, List.length_cons, keysFrom, inductionHypothesis]
    simp

/-- A match is found with what stands before it. -/
theorem keysFrom_match {read : Text → Option (Text × Text)} {matched key rest : Text}
    (nonempty : matched ≠ []) (found : read (matched ++ rest) = some (key, rest))
    (before : Text) :
    keysFrom read before 0 (matched ++ rest) =
      (before, Text.trim key) :: keysFrom read (matched.reverse ++ before) 0 rest := by
  obtain ⟨c, others, rfl⟩ := List.exists_cons_of_ne_nil nonempty
  have width : (c :: (others ++ rest)).length - rest.length - 1 = others.length := by
    simp
    omega
  rw [List.cons_append] at found ⊢
  rw [keysFrom, found]
  simp only [width, keysFrom_covered]
  simp

/-- Nothing is found in a piece that spells other commands. -/
theorem keysFrom_spelled {read : Text → Option (Text × Text)} {wanted : Text}
    (reads : ∀ suffix, ¬ '\\' :: wanted <+: suffix → read suffix = none) {heads : List Text}
    {piece : Text} (spells : Spells heads piece)
    (foreign : ∀ head ∈ heads, ¬ wanted <+: head ∧ ¬ head <+: wanted) (before rest : Text) :
    keysFrom read before 0 (piece ++ rest) = keysFrom read (piece.reverse ++ before) 0 rest := by
  have passed : ∀ suffix, suffix <:+ piece → ∀ before,
      keysFrom read before 0 (suffix ++ rest) =
        keysFrom read (suffix.reverse ++ before) 0 rest := by
    intro suffix within before
    induction suffix generalizing before with
    | nil => rfl
    | cons c others inductionHypothesis =>
      have silent : read (c :: (others ++ rest)) = none :=
        reads _ (spells.not_prefix foreign within rest)
      rw [List.cons_append, keysFrom, silent]
      simp only
      rw [inductionHypothesis ((List.suffix_cons c others).trans within)]
      simp
  exact passed piece (List.suffix_refl piece) before

theorem readLabel_eq_none {suffix : Text} (absent : ¬ '\\' :: "label".toList <+: suffix) :
    readLabel suffix = none := by
  have unnamed : Text.dropFront? "\\label".toList suffix = none :=
    Text.dropFront?_eq_none_iff.mpr absent
  rw [readLabel, unnamed]
  rfl

/-- A label is read up to the brace behind its key. -/
theorem readLabel_use {key : Text} (closing : '\x7d' ∉ key) (rest : Text) :
    readLabel (use "label".toList key ++ rest) = some (key, rest) := by
  have named : Text.dropFront? "\\label".toList (use "label".toList key ++ rest) =
      some ('\x7b' :: (key ++ '\x7d' :: rest)) := by
    rw [use_append]
    exact Text.dropFront?_append "\\label".toList _
  simp only [readLabel, named, Option.bind_eq_bind, Option.bind_some, Text.trimStart_brace,
    readEnclosed_append _ closing]

/-! ## Kinds -/

/-- A text that spells no heading command contains none. -/
theorem containsHeading_of_lacks {text : Text} (lacks : Lacks headingNames text) :
    containsHeading text = false := by
  induction text with
  | nil => rfl
  | cons c rest inductionHypothesis =>
    have later : Lacks headingNames rest := fun name listed occurs =>
      lacks name listed (occurs.trans (List.suffix_cons c rest).isInfix)
    have here : startsWithHeading (c :: rest) = false := by
      refine List.any_eq_false.mpr fun name listed => ?_
      have unnamed : Text.dropFront? ('\\' :: name) (c :: rest) = none :=
        Text.dropFront?_eq_none_iff.mpr fun start => lacks name listed start.isInfix
      rw [unnamed]
      exact Bool.false_ne_true
    rw [containsHeading, here, inductionHypothesis later, Bool.or_false]

/-- A heading at the end is contained. -/
theorem containsHeading_append {heading : Text} (starts : startsWithHeading heading = true)
    (nonempty : heading ≠ []) (before : Text) : containsHeading (before ++ heading) = true := by
  induction before with
  | nil =>
    obtain ⟨c, rest, rfl⟩ := List.exists_cons_of_ne_nil nonempty
    rw [List.nil_append, containsHeading, starts, Bool.true_or]
  | cons c others inductionHypothesis =>
    rw [List.cons_append, containsHeading, inductionHypothesis, Bool.or_true]

/-- What stands before a label, if it is long enough, decides about its kind. -/
theorem take_window {near : Text} (long : headingWindow ≤ near.length) (before : Text) :
    ((near.reverse ++ before).take headingWindow).reverse <:+ near := by
  rw [List.take_append_of_le_length (by rwa [List.length_reverse]), List.take_reverse,
    List.reverse_reverse]
  exact List.drop_suffix ..

/-- The labels found in a piece and their kinds, whatever stands around the piece. -/
def Finds (piece : Text) (found : List (LabelKind × Text)) : Prop :=
  ∀ before rest, ∃ labels,
    keysFrom readLabel before 0 (piece ++ rest) =
        labels ++ keysFrom readLabel (piece.reverse ++ before) 0 rest ∧
      labels.map (fun label => (kindAfter label.1, label.2)) = found

namespace Finds

variable {piece other : Text} {found others : List (LabelKind × Text)}

theorem append (first : Finds piece found) (second : Finds other others) :
    Finds (piece ++ other) (found ++ others) := by
  intro before rest
  obtain ⟨labels, here, rfl⟩ := first before (other ++ rest)
  obtain ⟨later, behind, rfl⟩ := second (piece.reverse ++ before) rest
  refine ⟨labels ++ later, ?_, List.map_append⟩
  rw [List.append_assoc, here, behind, List.reverse_append, List.append_assoc, List.append_assoc]

theorem flatMap {α : Type} {items : List α} {write : α → Text}
    {labels : α → List (LabelKind × Text)} (each : ∀ item ∈ items, Finds (write item) (labels item)) :
    Finds (items.flatMap write) (items.flatMap labels) := by
  induction items with
  | nil => exact fun before rest => ⟨[], rfl, rfl⟩
  | cons item others inductionHypothesis =>
    rw [List.forall_mem_cons] at each
    exact each.1.append (inductionHypothesis each.2)

/-- A piece that spells other commands has no labels. -/
theorem spelled {heads : List Text} (spells : Spells heads piece)
    (foreign : ∀ head ∈ heads, ¬ "label".toList <+: head ∧ ¬ head <+: "label".toList) :
    Finds piece [] :=
  fun before rest =>
    ⟨[], keysFrom_spelled (fun _ => readLabel_eq_none) spells foreign before rest, rfl⟩

theorem plain (bare : '\\' ∉ piece) : Finds piece [] := by
  have spells : Spells [] piece := .of_plain bare
  exact spelled spells (List.forall_mem_nil _)

/-- A label behind a piece that decides about its kind. -/
theorem label {heads : List Text} (spells : Spells heads piece)
    (foreign : ∀ head ∈ heads, ¬ "label".toList <+: head ∧ ¬ head <+: "label".toList)
    {kind : LabelKind} (decides : ∀ before, kindAfter (piece.reverse ++ before) = kind) {key : Text}
    (isKey : Document.IsKey key) : Finds (piece ++ use "label".toList key) [(kind, key)] := by
  intro before rest
  have nonempty : use "label".toList key ≠ [] := List.cons_ne_nil _ _
  have read := readLabel_use (isKey.not_mem (by decide)) rest
  refine ⟨[(piece.reverse ++ before, key)], ?_, by rw [List.map_singleton, decides]⟩
  rw [List.append_assoc, keysFrom_spelled (fun _ => readLabel_eq_none) spells foreign,
    keysFrom_match nonempty read, isKey.trim_eq, List.reverse_append, List.append_assoc]
  rfl

end Finds

/-! ## Declaring labels -/

/-- Number one more label of a kind. -/
def Numbers.declare (numbers : Numbers) (found : LabelKind × Text) : Numbers :=
  let (labels, repeated) := numbers.labels.declare found.2 found.1
  { numbers with labels, warnings := warnIf repeated found.2 numbers.warnings }

/-- Only the kinds and the keys of labels matter to their numbers. -/
theorem foldl_addLabel (labels : List (Text × Text)) (numbers : Numbers) :
    labels.foldl Numbers.addLabel numbers =
      (labels.map fun label => (kindAfter label.1, label.2)).foldl Numbers.declare numbers := by
  rw [List.foldl_map]
  rfl

/-- A new key gets the next number of its kind, without a warning. -/
theorem Numbers.declare_new {entries : KeyedList LabelNumber} {key : Text}
    (absent : key ∉ entries.map Prod.fst) (kind : LabelKind) (sections equations : Nat)
    (citations : CitationRegistry) (warnings : List Warning) :
    Numbers.declare ⟨⟨entries, sections, equations⟩, citations, warnings⟩ (kind, key) =
      match kind with
      | .heading => ⟨⟨entries ++ [(key, ⟨.heading, sections + 1⟩)], sections + 1, equations⟩,
          citations, warnings⟩
      | .equation => ⟨⟨entries ++ [(key, ⟨.equation, equations + 1⟩)], sections, equations + 1⟩,
          citations, warnings⟩ := by
  have unknown : LabelRegistry.find? ⟨entries, sections, equations⟩ key = none :=
    KeyedList.find?_eq_none absent
  cases kind <;>
    simp [declare, LabelRegistry.declare, unknown, warnIf, KeyedList.put_eq_append absent]

end Numbering

namespace Document

open LatexMarkdown.Numbering Alternation

/-- The kind and the key of the label that a part declares. -/
def Part.labels : Part → List (LabelKind × Text)
  | .heading _ key => [(.heading, key)]
  | .paragraph _ => []
  | .equation _ _ key => [(.equation, key)]

/-- A heading command that is short enough makes the label behind it that of a
heading. -/
theorem kindAfter_heading {title : Text}
    (short : (Segment.heading title).source.length ≤ headingWindow) (before : Text) :
    kindAfter ((Segment.heading title).source.reverse ++ before) = .heading := by
  have starts : startsWithHeading (Segment.heading title).source = true := by
    refine List.any_eq_true.mpr ⟨"section".toList, by decide, ?_⟩
    have named : Text.dropFront? ('\\' :: "section".toList) (Segment.heading title).source =
        some ('\x7b' :: (title ++ ['\x7d'])) := Text.dropFront?_append ('\\' :: "section".toList) _
    have starless : Text.dropFront? ['*'] ('\x7b' :: (title ++ ['\x7d'])) = none := rfl
    simp only [named, starless, Option.getD_none, Text.trimStart_brace]
    decide
  have window : (((Segment.heading title).source.reverse ++ before).take headingWindow).reverse =
      (before.take (headingWindow - (Segment.heading title).source.length)).reverse ++
        (Segment.heading title).source := by
    rw [List.take_append, List.take_of_length_le (by rwa [List.length_reverse]), List.length_reverse,
      List.reverse_append, List.reverse_reverse]
  rw [kindAfter, window, containsHeading_append starts (List.cons_ne_nil _ _), if_pos rfl]

/-- Behind a long text without headings a label is that of a formula. -/
theorem kindAfter_equation {near : Text} (long : headingWindow ≤ near.length)
    (lacks : Lacks headingNames near) (before : Text) :
    kindAfter (near.reverse ++ before) = .equation := by
  have window := take_window long before
  have none : containsHeading ((near.reverse ++ before).take headingWindow).reverse = false :=
    containsHeading_of_lacks fun name listed occurs =>
      lacks name listed (occurs.trans window.isInfix)
  rw [kindAfter, none, if_neg Bool.false_ne_true]

/-- The label of a part has the kind of the part. -/
theorem Part.WellFormed.finds {part : Part} (wellFormed : part.WellFormed) :
    Finds (Segment.sources part.segments) part.labels := by
  have separator : Finds ['\n', '\n'] [] := .plain (by decide)
  cases part with
  | heading title key =>
    obtain ⟨words, short, isKey⟩ := wellFormed
    have spells : Spells ["section\x7b".toList] (Segment.heading title).source :=
      spells_use (by decide) words.isArgument
    have label := Finds.label spells (by decide) (kindAfter_heading short) isKey
    have whole := label.append separator
    rw [List.append_assoc] at whole
    exact whole
  | paragraph text => exact Finds.append (.plain wellFormed.1.isArgument.plain) separator
  | equation lead body key =>
    obtain ⟨words, long, letters, isKey⟩ := wellFormed
    let near := lead ++ (['\n', '\n'] ++ (beginMarker "equation".toList ++ body))
    have leadPlain : '\\' ∉ lead := words.isArgument.plain
    have bodyPlain : '\\' ∉ body := letters.not_mem (by decide)
    have spells : Spells ["begin\x7bequation\x7d".toList] near :=
      (Spells.of_plain leadPlain).append ((Spells.of_plain (by decide)).append
        (Segment.spells_beginEquation.append (.of_plain bodyPlain)))
    have far : headingWindow ≤ near.length :=
      long.trans (by rw [List.length_append]; exact Nat.le_add_right ..)
    have label := Finds.label spells (by decide)
      (kindAfter_equation far (spells.lacks (by decide))) isKey
    have whole := (label.append (.spelled Segment.spells_endEquation (by decide))).append separator
    simp only [near, enclosed, List.append_assoc, List.append_nil, Segment.sources, List.flatMap_cons,
      List.flatMap_nil, Part.segments, Part.blankLine, Segment.source] at whole ⊢
    exact whole

/-- Labels with different keys get the numbers of their parts, and nothing is
reported. -/
theorem Part.foldl_declare (citations : CitationRegistry) (warnings : List Warning)
    (parts : List Part) (entries : KeyedList LabelNumber) (sections equations : Nat)
    (distinct : ((entries ++ Part.numbersFrom sections equations parts).map Prod.fst).Nodup) :
    ∃ lastSection lastEquation,
      (parts.flatMap Part.labels).foldl Numbers.declare
          ⟨⟨entries, sections, equations⟩, citations, warnings⟩ =
        ⟨⟨entries ++ Part.numbersFrom sections equations parts, lastSection, lastEquation⟩,
          citations, warnings⟩ := by
  induction parts generalizing entries sections equations with
  | nil => exact ⟨sections, equations, by simp [Part.numbersFrom]⟩
  | cons part others inductionHypothesis =>
    have absent {key : Text} {number : LabelNumber} {later : KeyedList LabelNumber}
        (distinct : ((entries ++ (key, number) :: later).map Prod.fst).Nodup) :
        key ∉ entries.map Prod.fst := by
      rw [List.map_append, List.map_cons, List.nodup_append] at distinct
      exact fun member => distinct.2.2 key member key (List.mem_cons_self ..) rfl
    have step {first : KeyedList LabelNumber} {entry : Text × LabelNumber}
        {later : KeyedList LabelNumber} : first ++ entry :: later = first ++ [entry] ++ later := by
      simp
    cases part with
    | heading title key =>
      rw [Part.numbersFrom] at distinct ⊢
      rw [step, List.flatMap_cons, List.foldl_append, Part.labels, List.foldl_cons, List.foldl_nil,
        Numbers.declare_new (absent distinct)]
      rw [step] at distinct
      exact inductionHypothesis _ _ _ distinct
    | paragraph text => exact inductionHypothesis entries sections equations distinct
    | equation lead body key =>
      rw [Part.numbersFrom] at distinct ⊢
      rw [step, List.flatMap_cons, List.foldl_append, Part.labels, List.foldl_cons, List.foldl_nil,
        Numbers.declare_new (absent distinct)]
      rw [step] at distinct
      exact inductionHypothesis _ _ _ distinct

/-- The labels of a document get the numbers of their parts, without a warning. -/
theorem LabelledDocument.WellFormed.scan_eq {document : LabelledDocument}
    (wellFormed : document.WellFormed) :
    ∃ sections equations, scan document.source =
      ⟨⟨document.numbers, sections, equations⟩, .empty, []⟩ := by
  have inParts : Finds (document.parts.flatMap fun part => Segment.sources part.segments)
      (document.parts.flatMap Part.labels) :=
    Finds.flatMap fun part listed => (wellFormed.parts part listed).finds
  have whole := inParts.append (.spelled wellFormed.spells_references (by decide))
  rw [← document.source_eq, List.append_nil] at whole
  obtain ⟨labels, found, kinds⟩ := whole [] []
  rw [List.append_nil, keysFrom, List.append_nil] at found
  have items : itemKeys document.source = [] := by
    have lacks : Lacks ["bibitem".toList] document.source := wellFormed.spells.lacks (by decide)
    exact itemKeys_of_absent (lacks _ (List.mem_singleton_self _))
  have distinct : (([] ++ Part.numbersFrom 0 0 document.parts).map Prod.fst).Nodup :=
    wellFormed.distinct
  obtain ⟨sections, equations, declared⟩ :=
    Part.foldl_declare .empty [] document.parts [] 0 0 distinct
  refine ⟨sections, equations, ?_⟩
  rw [scan, items, labelKeys, found, List.foldl_nil, foldl_addLabel, kinds]
  exact declared

/-- The pass that numbers keys takes the numbers of the parts. -/
theorem LabelledDocument.WellFormed.number_eq {document : LabelledDocument}
    (wellFormed : document.WellFormed) (state : State) :
    ∃ sections equations, state.number document.source =
      { state with labels := ⟨document.numbers, sections, equations⟩, citations := .empty } := by
  obtain ⟨sections, equations, scanned⟩ := wellFormed.scan_eq
  refine ⟨sections, equations, ?_⟩
  rw [State.number, scanned]
  exact State.warn_nil _

end Document

end LatexMarkdown
