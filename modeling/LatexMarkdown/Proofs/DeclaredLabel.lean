import LatexMarkdown.Proofs.Bibliography

/-!
# References to declared labels

A label is declared with whatever stands up to the first closing brace, and a reference
reads a balanced argument. On keys without braces and backslashes both agree, and the
blanks around a key count for neither. All references but those to equations take a list
of keys, so that no comma can stand in a key that they name.
-/

namespace LatexMarkdown

open Scan

/-- A fold with one step that changes the state, and once. -/
theorem foldl_of_mem {α β : Type} {step : α → β → α} {state next : α} {items : List β}
    {chosen : β} (listed : chosen ∈ items)
    (before : ∀ item ∈ items, item ≠ chosen → step state item = state)
    (here : step state chosen = next) (after : ∀ item ∈ items, step next item = next) :
    items.foldl step state = next := by
  induction items with
  | nil => exact absurd listed List.not_mem_nil
  | cons item others inductionHypothesis =>
    rw [List.forall_mem_cons] at before after
    by_cases first : item = chosen
    · subst first
      rw [List.foldl_cons, here]
      exact foldl_fixed_of_mem others after.2
    · have later : chosen ∈ others := (List.mem_cons.mp listed).resolve_left (Ne.symm first)
      rw [List.foldl_cons, before.1 first]
      exact inductionHypothesis later before.2 after.2

namespace Numbering

/-! ## Declared keys -/

/-- A label that is known after one more is declared was known before, or is that one. -/
theorem eq_or_find?_of_declare {labels : LabelRegistry} {key wanted : Text} {kind : LabelKind}
    {label : LabelNumber} (known : (labels.declare key kind).1.find? wanted = some label) :
    wanted = key ∨ labels.find? wanted = some label := by
  by_cases same : key = wanted
  · exact .inl same.symm
  · rw [LabelRegistry.declare, LabelRegistry.find?, KeyedList.find?_put_of_ne _ same] at known
    exact .inr known

/-- A label that is known after a run of declarations was known before, or is one of
them. -/
theorem mem_or_find?_of_foldl {found : List (Text × Text)} {numbers : Numbers} {key : Text}
    {label : LabelNumber} (known : (found.foldl Numbers.addLabel numbers).labels.find? key =
      some label) :
    key ∈ found.map Prod.snd ∨ numbers.labels.find? key = some label := by
  induction found generalizing numbers with
  | nil => exact .inr known
  | cons first others inductionHypothesis =>
    rw [List.map_cons, List.mem_cons]
    rcases inductionHypothesis known with later | before
    · exact .inl (.inr later)
    · rcases eq_or_find?_of_declare before with here | earlier
      · exact .inl (.inl here)
      · exact .inr earlier

/-- Bibliography items have no part in the numbers of labels. -/
theorem labels_foldl_addItem (keys : List Text) (numbers : Numbers) :
    (keys.foldl Numbers.addItem numbers).labels = numbers.labels := by
  induction keys generalizing numbers with
  | nil => rfl
  | cons key others inductionHypothesis => exact inductionHypothesis _

/-- Every label that is known is declared somewhere in the document. -/
theorem mem_labelKeys_of_scan {document key : Text} {label : LabelNumber}
    (known : (scan document).labels.find? key = some label) :
    key ∈ (labelKeys document).map Prod.snd := by
  rw [scan, labels_foldl_addItem] at known
  rcases mem_or_find?_of_foldl known with listed | unknown
  · exact listed
  · cases unknown

/-- The keys of labels have no blanks at their ends. -/
theorem trim_of_scan {document key : Text} {label : LabelNumber}
    (known : (scan document).labels.find? key = some label) : Text.trim key = key := by
  obtain ⟨found, listed, rfl⟩ := List.mem_map.mp (mem_labelKeys_of_scan known)
  exact Bibliography.trim_of_mem_keysFrom readLabel [] 0 document found listed

/-- What is shown for a label has no commands. -/
theorem plain_render (label : LabelNumber) : '\\' ∉ label.render := by
  have digits : '\\' ∉ Text.ofNat label.number := fun member =>
    absurd (Fragment.isDigit_of_mem_ofNat member) (by decide)
  obtain ⟨kind, number⟩ := label
  cases kind with
  | heading => exact digits
  | equation =>
    rw [LabelNumber.render]
    simp only [List.cons_append, List.mem_cons, List.mem_append, not_or]
    exact ⟨by decide, digits, by decide, List.not_mem_nil⟩

/-! ## Uses of declared keys -/

section Use

variable {labels : LabelRegistry} {citations : CitationRegistry} {warnings : List Warning}
  {name key written before after : Text} (isArgument : IsArgument key)
  (plain : '\\' ∉ before ∧ '\\' ∉ after)

include isArgument plain

/-- The use of a command between texts without commands has no other command. -/
theorem lacks_use (bare : '\\' ∉ name) {names : List Text}
    (foreign : ∀ other ∈ names, ¬ other <+: name ++ ['{'] ∧ ¬ name ++ ['{'] <+: other) :
    Lacks names (before ++ (use name key ++ after)) := by
  have spells : Spells [name ++ ['{']] (before ++ (use name key ++ after)) :=
    (Spells.of_plain plain.1).append
      ((spells_use bare isArgument).append (Spells.of_plain plain.2))
  refine spells.lacks fun other listed => ?_
  rw [List.forall_mem_singleton]
  exact foreign other listed

/-- The use of a command is resolved where it stands. -/
theorem editAlways_use {answer : List Warning → Arguments → List Warning × Text}
    (answered : answer warnings ⟨false, [], [key]⟩ = (warnings, written)) :
    editAlways name 0 1 answer warnings (before ++ (use name key ++ after)) =
      (warnings, before ++ (written ++ after)) :=
  editCommand_use plain (readBraced_of_isArgument isArgument)
    (fun closing => isArgument _ closing (by decide)) (by rw [answered])

/-- Of all commands for references only the one in the text is resolved. -/
theorem foldl_references (listed : name ∈ referenceNames) (bare : '\\' ∉ written)
    (answered : renderReference labels warnings ⟨false, [], [key]⟩ = (warnings, written)) :
    referenceNames.foldl (fun (warnings, text) name =>
      editAlways name 0 1 (renderReference labels) warnings text)
        (warnings, before ++ (use name key ++ after)) =
      (warnings, before ++ (written ++ after)) := by
  have unnamed : ∀ name ∈ referenceNames, '\\' ∉ name ∧
      ∀ other ∈ referenceNames.filter (· ≠ name),
        ¬ other <+: name ++ ['{'] ∧ ¬ name ++ ['{'] <+: other := by decide
  obtain ⟨nameBare, foreign⟩ := unnamed name listed
  have others := lacks_use isArgument plain nameBare foreign
  have writtenPlain : '\\' ∉ before ++ (written ++ after) := by simp [plain, bare]
  refine foldl_of_mem listed (fun other refers different => ?_)
    (editAlways_use isArgument plain answered) fun other _ => editCommand_of_plain writtenPlain ..
  exact editCommand_of_absent
    (others other (List.mem_filter.mpr ⟨refers, decide_eq_true different⟩)) ..

/-- One reference is resolved to what its own command writes. -/
theorem resolveReferences_reference (listed : name ∈ referenceNames) (bare : '\\' ∉ written)
    (answered : renderReference labels warnings ⟨false, [], [key]⟩ = (warnings, written)) :
    resolveReferences labels citations warnings (before ++ (use name key ++ after)) =
      (warnings, before ++ (written ++ after)) := by
  have unnamed : ∀ name ∈ referenceNames, '\\' ∉ name ∧
      ∀ other ∈ citationNames, ¬ other <+: name ++ ['{'] ∧ ¬ name ++ ['{'] <+: other := by decide
  obtain ⟨nameBare, foreign⟩ := unnamed name listed
  have others := lacks_use isArgument plain nameBare foreign
  have writtenPlain : '\\' ∉ before ++ (written ++ after) := by simp [plain, bare]
  have silent (other : Text) (maxOptions required : Nat)
      (answer : List Warning → Arguments → List Warning × Text) :
      editAlways other maxOptions required answer warnings (before ++ (written ++ after)) =
        (warnings, before ++ (written ++ after)) := editCommand_of_plain writtenPlain ..
  rw [resolveReferences, foldl_fixed_of_mem citationNames fun other cites =>
    editCommand_of_absent (others other cites) ..]
  simp only
  rw [foldl_references isArgument plain listed bare answered]
  simp only [silent, dropLabels_of_escaped (.of_plain writtenPlain)]

/-- One reference to an equation is resolved to what its command writes. -/
theorem resolveReferences_equation (bare : '\\' ∉ written)
    (answered : renderEquationReference labels warnings ⟨false, [], [key]⟩ = (warnings, written)) :
    resolveReferences labels citations warnings (before ++ (use "eqref".toList key ++ after)) =
      (warnings, before ++ (written ++ after)) := by
  have foreign : ∀ other ∈ citationNames ++ referenceNames,
      ¬ other <+: "eqref".toList ++ ['{'] ∧ ¬ "eqref".toList ++ ['{'] <+: other := by
    decide
  have others := lacks_use isArgument plain (by decide) foreign
  have writtenPlain : '\\' ∉ before ++ (written ++ after) := by simp [plain, bare]
  have pages : editAlways "pageref".toList 0 1 (fun warnings _ => (warnings, unknownPage)) warnings
      (before ++ (written ++ after)) = (warnings, before ++ (written ++ after)) :=
    editCommand_of_plain writtenPlain ..
  rw [resolveReferences, foldl_fixed_of_mem citationNames fun other cites =>
    editCommand_of_absent (others other (List.mem_append_left _ cites)) ..]
  simp only
  rw [foldl_fixed_of_mem referenceNames fun other refers =>
    editCommand_of_absent (others other (List.mem_append_right _ refers)) ..]
  simp only [editAlways_use isArgument plain answered, pages,
    dropLabels_of_escaped (.of_plain writtenPlain)]

end Use

/-! ## References to declared labels -/

/-- A reference to a label that the document declares shows its number, without a
warning, if no comma is in the key; a reference to an equation shows it in one pair of
parentheses, whatever is in the key. -/
theorem resolveReferences_declared {document key : Text} {label : LabelNumber}
    (declared : (scan document).labels.find? key = some label) (nonempty : key ≠ [])
    (isArgument : IsArgument key) {before after : Text} (plain : '\\' ∉ before ∧ '\\' ∉ after)
    (citations : CitationRegistry) (warnings : List Warning) :
    (',' ∉ key → ∀ name ∈ referenceNames,
      resolveReferences (scan document).labels citations warnings
          (before ++ (use name key ++ after)) =
        (warnings, before ++ (label.render ++ after))) ∧
      resolveReferences (scan document).labels citations warnings
          (before ++ (use "eqref".toList key ++ after)) =
        (warnings, before ++ ('(' :: Text.ofNat label.number ++ [')'] ++ after)) := by
  have trimmed := trim_of_scan declared
  refine ⟨fun single name listed => ?_, ?_⟩
  · exact resolveReferences_reference isArgument plain listed (plain_render label)
      (renderReference_known declared trimmed nonempty single warnings)
  · exact resolveReferences_equation isArgument plain (plain_render ⟨.equation, label.number⟩)
      (renderEquationReference_known declared trimmed warnings)

/-- A heading whose label has blanks around its key. -/
def paddedLabel : Text :=
  "\\section{S}\\label{ a b }".toList

theorem resolveReferences_paddedLabel :
    (scan paddedLabel).labels.find? "a b".toList = some ⟨.heading, 1⟩ ∧
      resolveReferences (scan paddedLabel).labels .empty []
          ("See ".toList ++ (use "cref".toList "a b".toList ++ ['.'])) =
        ([], "See ".toList ++ ("1".toList ++ ['.'])) ∧
      resolveReferences (scan paddedLabel).labels .empty []
          ("See ".toList ++ (use "eqref".toList "a b".toList ++ ['.'])) =
        ([], "See ".toList ++ ("(1)".toList ++ ['.'])) := by
  have declared : (scan paddedLabel).labels.find? "a b".toList = some ⟨.heading, 1⟩ := by
    decide
  have plain : '\\' ∉ "See ".toList ∧ '\\' ∉ ['.'] := by decide
  obtain ⟨referred, equation⟩ :=
    resolveReferences_declared declared (by decide) (by decide) plain .empty []
  exact ⟨declared, referred (by decide) "cref".toList (by decide), equation⟩

/-- A label whose key holds a comma. -/
def listedLabel : Text :=
  "\\label{a,b}".toList

/-- The key is declared as a whole, and is referred to as two keys that are not. -/
theorem resolveReferences_listedLabel :
    (scan listedLabel).labels.find? "a,b".toList = some ⟨.equation, 1⟩ ∧
      resolveReferences (scan listedLabel).labels .empty [] (use "ref".toList "a,b".toList) =
        ([.about .unresolvedReference ['a'], .about .unresolvedReference ['b']],
          "??, ??".toList) := by
  decide

end Numbering

end LatexMarkdown
