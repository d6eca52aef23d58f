import LatexMarkdown.Inline.Heading
import LatexMarkdown.Proofs.LabelNumbers

/-!
# A labelled document, pass by pass

Four passes act on a labelled document: the formulas are moved into the store, the
references give way to numbers, the labels are dropped and the headings are
converted. Each acts on one kind of segment and keeps all others.
-/

namespace LatexMarkdown.Document

open Scan LatexMarkdown.Numbering Alternation

/-! ## Labels -/

/-- The rule that drops labels. -/
def labelRule : Rule Unit :=
  fun _ _ suffix => ((), ((readLabel suffix).map fun (_, rest) => (([] : Text), rest)).map
    fun (replacement, rest) => Edit.upTo suffix rest replacement)

theorem dropLabels_eq_edit (text : Text) : dropLabels text = (edit labelRule () text).2 :=
  rfl

theorem labelRule_startsAt : labelRule.StartsAt ('\\' :: "label".toList) := by
  intro state cursor suffix absent
  rw [labelRule, readLabel_eq_none absent]
  rfl

/-- A label is dropped. -/
theorem turns_label {key : Text} (isKey : IsKey key) :
    Turns labelRule () (use "label".toList key) () [] := by
  have spelled : use "label".toList key = ('\\' :: ("label".toList ++ '\x7b' :: key)) ++ ['\x7d'] := by
    simp [use]
  rw [spelled]
  refine .replace (by decide) fun cursor rest _ => ?_
  rw [← spelled, labelRule, readLabel_use (isKey.not_mem (by decide))]
  rfl

namespace Segment

/-- What a formula with a label is stored as. -/
def fragment (labels : LabelRegistry) (body key : Text) : Text :=
  Math.renderDisplay false ((labels.find? key).map LabelNumber.number) body

/-- The family of numbered formulas. -/
def equationFamily : Math.Family :=
  ⟨"equation", .display, 0, true⟩

/-- A label drops out of the body of a formula. -/
theorem dropLabels_body {body key : Text} (letters : IsLetters body) (isKey : IsKey key) :
    dropLabels (body ++ use "label".toList key) = body := by
  have plain : '\\' ∉ body := letters.not_mem (by decide)
  have kept : Turns labelRule () body () body :=
    .spelled labelRule_startsAt (.of_plain plain : Spells [] body) (List.forall_mem_nil _)
  rw [dropLabels_eq_edit, (kept.append (turns_label isKey)).edit_eq, List.append_nil]

/-- The only label of a formula is the one it declares. -/
theorem tagOf_body (labels : LabelRegistry) {body key : Text} (letters : IsLetters body)
    (isKey : IsKey key) : Math.tagOf labels (body ++ use "label".toList key) =
      (labels.find? key).map LabelNumber.number := by
  have plain : '\\' ∉ body := letters.not_mem (by decide)
  have spells : Spells [] body := .of_plain plain
  have nonempty : use "label".toList key ≠ [] := List.cons_ne_nil _ _
  have found : labelKeys (body ++ use "label".toList key) = [(body.reverse, key)] := by
    have read := keysFrom_match nonempty (readLabel_use (isKey.not_mem (by decide)) []) body.reverse
    rw [List.append_nil, isKey.trim_eq] at read
    rw [labelKeys, keysFrom_spelled (fun _ => readLabel_eq_none) spells (List.forall_mem_nil _),
      List.append_nil, read]
    rfl
  rw [Math.tagOf, found]
  cases known : labels.find? key <;> simp [known]

/-- A formula is written with the number of its label. -/
theorem render_equation (colors : ColorTable) (labels : LabelRegistry) {body key : Text}
    (letters : IsLetters body) (isKey : IsKey key) :
    equationFamily.render colors labels false (body ++ use "label".toList key) =
      fragment labels body key := by
  have plain : '\\' ∉ body := letters.not_mem (by decide)
  have cleaned : Math.clean colors (body ++ use "label".toList key) = Text.trim body := by
    simp only [Math.clean, Math.resolveColor, dropLabels_body letters isKey,
      replaceCommand_of_plain plain]
  simp only [Math.Family.render, equationFamily, cleaned, if_true, tagOf_body labels letters isKey,
    fragment, Math.renderDisplay, Text.trim_trim]
  rfl

/-- Move the formulas into the store. -/
def stored (labels : LabelRegistry) (state : Unit × FragmentStore) :
    Segment → (Unit × FragmentStore) × Segment
  | .equation body key =>
    (((), (state.2.push (fragment labels body key)).1), .text (Fragment.token state.2.size))
  | segment => (state, segment)

/-- Put the numbers in the place of the references of one form. -/
def resolved (numbers : KeyedList LabelNumber) (wanted : Bool) : Segment → Segment
  | .reference parentheses key =>
    if parentheses = wanted then .text (Reference.shown numbers ⟨false, parentheses, key⟩)
    else .reference parentheses key
  | segment => segment

/-- Drop the labels. -/
def unlabelled : Segment → Segment
  | .label _ => .text []
  | segment => segment

/-- Convert the headings. -/
def headed : Segment → Segment
  | .heading title => .text (Inline.renderHeading 1 title)
  | segment => segment

/-! ## What the rules make of a segment -/

/-- A rule for another command keeps a segment. -/
theorem turns_kept {σ : Type} {rule : Rule σ} {wanted : Text}
    (startsAt : rule.StartsAt ('\\' :: wanted)) {segment : Segment} (fits : segment.Fits)
    (foreign : ∀ head ∈ segment.heads, ¬ wanted <+: head ∧ ¬ head <+: wanted) (state : σ) :
    Turns rule state segment.source state segment.source :=
  .spelled startsAt (spells fits) foreign

/-- The rule that moves formulas into the store. -/
def equationRule (colors : ColorTable) (labels : LabelRegistry) : Rule (Unit × FragmentStore) :=
  environmentRule "equation".toList 0 0 (FragmentStore.stored fun (_ : Unit) environment =>
    ((), some (equationFamily.render colors labels false environment.body)))

theorem turns_stored (colors : ColorTable) (labels : LabelRegistry) {segment : Segment}
    (fits : segment.Fits) (state : Unit × FragmentStore) :
    Turns (equationRule colors labels) state segment.source (segment.stored labels state).1
      (segment.stored labels state).2.source := by
  have startsAt : (equationRule colors labels).StartsAt
      ('\\' :: "begin\x7bequation\x7d".toList) := environmentRule_startsAt "equation".toList 0 0 _
  cases segment with
  | equation body key =>
    obtain ⟨letters, isKey⟩ := fits
    have closed : (equation body key).source = (beginMarker "equation".toList ++
        (body ++ use "label".toList key ++ "\\end\x7bequation".toList)) ++ ['\x7d'] := by
      simp [source, enclosed, endMarker_eq]
    rw [closed]
    refine .replace (by decide) fun cursor rest free => ?_
    rw [← closed]
    have bare : '\\' ∉ "equation".toList := by decide
    obtain ⟨found, same, read⟩ :=
      readEnvironment_enclosed bare (isSealed_equation letters isKey) free rest
    simp only [equationRule, environmentRule, source, read, FragmentStore.stored, same,
      render_equation colors labels letters isKey]
    rfl
  | text content => exact turns_kept startsAt fits (List.forall_mem_nil _) state
  | heading title => exact turns_kept startsAt fits (by rw [heads]; decide) state
  | label key => exact turns_kept startsAt fits (by rw [heads]; decide) state
  | reference parentheses key =>
    refine turns_kept startsAt fits ?_ state
    rw [heads]
    cases parentheses <;> decide

/-- The answer to a reference. -/
def referenceAnswer (labels : LabelRegistry) (parentheses : Bool) : List Warning → Arguments →
    List Warning × Text :=
  if parentheses then renderEquationReference labels else renderReference labels

/-- The answer to a reference as the rule of a command takes it. -/
def answerReference (labels : LabelRegistry) (parentheses : Bool) :
    Answer (List Warning) Arguments := fun warnings arguments =>
  let (warnings, replacement) := referenceAnswer labels parentheses warnings arguments
  (warnings, some replacement)

/-- A reference to a known label is written as its number. -/
theorem answerReference_known {labels : LabelRegistry} {key : Text} (isKey : IsKey key)
    {label : LabelNumber} (known : labels.find? key = some label) (parentheses : Bool)
    (warnings : List Warning) :
    answerReference labels parentheses warnings ⟨false, [], [key]⟩ =
      (warnings, some (if parentheses then '(' :: Text.ofNat label.number ++ [')']
        else label.render)) := by
  cases parentheses with
  | false =>
    simp only [answerReference, referenceAnswer, Bool.false_eq_true, if_false,
      renderReference_known known isKey.trim_eq isKey.1 (isKey.not_mem (by decide))]
  | true =>
    simp only [answerReference, referenceAnswer, if_true,
      renderEquationReference_known known isKey.trim_eq]

/-- The rule that resolves the references of one form. -/
def referenceRule (labels : LabelRegistry) (parentheses : Bool) (depth : Nat) :
    Rule (List Warning) :=
  commandRule (referenceName parentheses) ⟨true, 0, 1⟩
    (editCommandAt (referenceName parentheses) ⟨true, 0, 1⟩ (answerReference labels parentheses) depth)
    (answerReference labels parentheses)

theorem turns_resolved {labels : LabelRegistry} (wanted : Bool) (depth : Nat) {segment : Segment}
    (fits : segment.Fits)
    (known : ∀ parentheses key, segment = .reference parentheses key →
      (labels.find? key).isSome = true) (warnings : List Warning) :
    Turns (referenceRule labels wanted depth) warnings segment.source warnings
      (segment.resolved labels.entries wanted).source := by
  have startsAt : (referenceRule labels wanted depth).StartsAt ('\\' :: referenceName wanted) :=
    commandRule_startsAt _ _ _ _
  have kept (foreign : ∀ head ∈ segment.heads,
      ¬ referenceName wanted <+: head ∧ ¬ head <+: referenceName wanted) :
      Turns (referenceRule labels wanted depth) warnings segment.source warnings segment.source :=
    turns_kept startsAt fits foreign warnings
  cases segment with
  | text content => exact kept (List.forall_mem_nil _)
  | heading title => exact kept (by rw [heads]; cases wanted <;> decide)
  | label key => exact kept (by rw [heads]; cases wanted <;> decide)
  | equation body key => exact kept (by rw [heads]; cases wanted <;> decide)
  | reference parentheses key =>
    by_cases same : parentheses = wanted
    · subst same
      obtain ⟨label, found⟩ := Option.isSome_iff_exists.mp (known parentheses key rfl)
      have listed : KeyedList.find? labels.entries key = some label := found
      rw [resolved, if_pos rfl, source, source, Reference.shown, listed]
      exact Turns.use fits.isArgument (answerReference_known fits found parentheses warnings)
    · rw [resolved, if_neg same]
      refine kept ?_
      rw [heads]
      cases parentheses <;> cases wanted <;> first | exact absurd rfl same | decide

/-- Labels are dropped, and all else is kept. -/
theorem turns_unlabelled {segment : Segment} (fits : segment.Fits)
    (outside : ∀ body key, segment ≠ .equation body key) :
    Turns labelRule () segment.source () segment.unlabelled.source := by
  cases segment with
  | label key => exact turns_label fits
  | equation body key => exact absurd rfl (outside body key)
  | text content => exact turns_kept labelRule_startsAt fits (List.forall_mem_nil _) ()
  | heading title => exact turns_kept labelRule_startsAt fits (by rw [heads]; decide) ()
  | reference parentheses key =>
    refine turns_kept labelRule_startsAt fits ?_ ()
    rw [heads]
    cases parentheses <;> decide

/-- The answer to a heading of the first level. -/
def answerHeading : Answer Unit Arguments := fun _ arguments =>
  ((), some (Inline.renderHeading 1 (arguments.argument 0)))

/-- The rule for headings of sections. -/
def headingRule (depth : Nat) : Rule Unit :=
  commandRule "section".toList ⟨true, 1, 1⟩
    (editCommandAt "section".toList ⟨true, 1, 1⟩ answerHeading depth) answerHeading

/-- Headings are converted, and all else is kept. -/
theorem turns_headed (depth : Nat) {segment : Segment} (fits : segment.Fits) :
    Turns (headingRule depth) () segment.source () segment.headed.source := by
  have startsAt : (headingRule depth).StartsAt ('\\' :: "section".toList) :=
    commandRule_startsAt _ _ _ _
  cases segment with
  | heading title => exact Turns.use fits rfl
  | text content => exact turns_kept startsAt fits (List.forall_mem_nil _) ()
  | label key => exact turns_kept startsAt fits (by rw [heads]; decide) ()
  | equation body key => exact turns_kept startsAt fits (by rw [heads]; decide) ()
  | reference parentheses key =>
    refine turns_kept startsAt fits ?_ ()
    rw [heads]
    cases parentheses <;> decide

/-! ## What the rules make of a document -/

/-- A number has no backslash. -/
theorem plain_shown (numbers : KeyedList LabelNumber) (reference : Reference) :
    '\\' ∉ reference.shown numbers := by
  have digits (number : Nat) : '\\' ∉ Text.ofNat number := fun member =>
    absurd (Fragment.isDigit_of_mem_ofNat member) (by decide)
  rw [Reference.shown]
  split
  · decide
  next label _ =>
    obtain ⟨kind, number⟩ := label
    split
    · simp [digits]
    · cases kind <;> simp [LabelNumber.render, digits]

/-- Resolving references leaves segments that fit, and spells no new commands. -/
theorem resolved_fits (numbers : KeyedList LabelNumber) (wanted : Bool) {segment : Segment}
    (fits : segment.Fits) : (segment.resolved numbers wanted).Fits ∧
      (segment.resolved numbers wanted).heads ⊆ segment.heads := by
  cases segment with
  | reference parentheses key =>
    rw [resolved]
    split
    · exact ⟨plain_shown numbers _, List.nil_subset _⟩
    · exact ⟨fits, List.Subset.refl _⟩
  | _ => exact ⟨fits, List.Subset.refl _⟩

/-- Resolving references brings in neither references nor formulas. -/
theorem mem_of_mem_resolved {numbers : KeyedList LabelNumber} {wanted : Bool}
    {segments : List Segment} {segment : Segment}
    (member : segment ∈ segments.map (resolved numbers wanted))
    (written : ∀ content, segment ≠ .text content) : segment ∈ segments := by
  obtain ⟨original, listed, rfl⟩ := List.mem_map.mp member
  cases original with
  | reference parentheses key =>
    rw [resolved] at written ⊢
    split at written
    · exact absurd rfl (written _)
    next other => rwa [if_neg other]
  | _ => exact listed

/-- References to known labels are resolved without a warning. -/
theorem editAlways_references {labels : LabelRegistry} (wanted : Bool) {segments : List Segment}
    (fits : ∀ segment ∈ segments, segment.Fits)
    (known : ∀ parentheses key, .reference parentheses key ∈ segments →
      (labels.find? key).isSome = true) (warnings : List Warning) :
    editAlways (referenceName wanted) 0 1 (referenceAnswer labels wanted) warnings
        (sources segments) =
      (warnings, sources (segments.map (resolved labels.entries wanted))) :=
  editCommand_of_turns fun depth => Turns.flatMap_map fun segment member =>
    turns_resolved wanted depth (fits segment member)
      (fun parentheses key same => known parentheses key (same ▸ member)) warnings

/-- The labels of a document without formulas are dropped. -/
theorem dropLabels_sources {segments : List Segment} (fits : ∀ segment ∈ segments, segment.Fits)
    (outside : ∀ body key, .equation body key ∉ segments) :
    dropLabels (sources segments) = sources (segments.map unlabelled) := by
  have turns : Turns labelRule () (sources segments) () (sources (segments.map unlabelled)) :=
    Turns.flatMap_map fun segment member => turns_unlabelled (fits segment member)
      fun body key same => outside body key (same ▸ member)
  rw [dropLabels_eq_edit, turns.edit_eq]

/-- The headings of a document are converted. -/
theorem replaceCommand_sources {segments : List Segment}
    (fits : ∀ segment ∈ segments, segment.Fits) :
    replaceCommand "section".toList ⟨true, 1, 1⟩ (fun arguments =>
        some (Inline.renderHeading 1 (arguments.argument 0))) (sources segments) =
      sources (segments.map headed) := by
  have edited : editCommand "section".toList ⟨true, 1, 1⟩ answerHeading () (sources segments) =
      ((), sources (segments.map headed)) :=
    editCommand_of_turns fun depth => Turns.flatMap_map fun segment member =>
      turns_headed depth (fits segment member)
  exact congrArg Prod.snd edited

end Segment

end LatexMarkdown.Document
