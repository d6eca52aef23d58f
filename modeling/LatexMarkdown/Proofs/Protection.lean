import LatexMarkdown.Proofs.Delimiters
import LatexMarkdown.Proofs.Token

/-!
# Protection, then restoration

A protecting scan and the plain scan with the same answers go over a text side
by side: wherever the plain one writes an answer, the protecting one stores it
and writes a token. `Protects` relates the text they read and the two texts they
write, and restoration carries one written text to the other.
-/

namespace LatexMarkdown.FragmentStore

open Fragment Scan

/-- Every fragment of a store is in the other store, under the same index. -/
def Extends (store later : FragmentStore) : Prop :=
  ∀ index fragment, store.get? index = some fragment → later.get? index = some fragment

namespace Extends

/-- A store has its own fragments. -/
theorem refl (store : FragmentStore) : Extends store store :=
  fun _ _ found => found

/-- A store that grows twice keeps its first fragments. -/
theorem trans {first second third : FragmentStore} (earlier : Extends first second)
    (later : Extends second third) : Extends first third :=
  fun index fragment found => later index fragment (earlier index fragment found)

/-- Storing a fragment changes no other. -/
theorem push (store : FragmentStore) (fragment : Text) :
    Extends store (store.push fragment).1 := by
  intro index other found
  obtain ⟨inside, same⟩ := Array.getElem?_eq_some_iff.mp found
  simp only [get?, FragmentStore.push]
  rw [Array.getElem?_push_lt inside, same]

end Extends

/-- A stored fragment has the index that its token was written for. -/
theorem get?_push_size (store : FragmentStore) (fragment : Text) :
    (store.push fragment).1.get? store.size = some fragment := by
  simp [get?, FragmentStore.push, size]

/-- A source text, the text with tokens that a protecting scan writes, and the
text that the plain scan writes. Both keep the characters that no edit covers;
a replaced piece has a token in one and the fragment of that token in the other. -/
inductive Protects (store : FragmentStore) : (source written plain : Text) → Prop
  | done : Protects store [] [] []
  | kept (c : Char) {source written plain : Text} (others : Protects store source written plain) :
      Protects store (c :: source) (c :: written) (c :: plain)
  | replaced (matched : Text) {index : Nat} {fragment source written plain : Text}
      (found : store.get? index = some fragment)
      (others : Protects store source written plain) :
      Protects store (matched ++ source) (token index ++ written) (fragment ++ plain)

namespace Protects

/-- Both scans keep a whole piece. -/
theorem keptAll {store : FragmentStore} (piece : Text) {source written plain : Text}
    (protects : Protects store source written plain) :
    Protects store (piece ++ source) (piece ++ written) (piece ++ plain) := by
  induction piece with
  | nil => exact protects
  | cons c others inductionHypothesis => exact .kept c inductionHypothesis

/-- A proper end of the opening that starts the written text starts the source
as well: no such end reaches into a token. -/
theorem source_of_written {store : FragmentStore} {source written plain back : Text}
    (protects : Protects store source written plain) (ends : back <:+ tokenOpening)
    (proper : back ≠ tokenOpening) (start : back <+: written) : back <+: source := by
  induction protects generalizing back with
  | done => exact start
  | kept c _ inductionHypothesis =>
    cases back with
    | nil => exact List.nil_prefix
    | cons d behind =>
      obtain ⟨rfl, behindStart⟩ := List.cons_prefix_cons.mp start
      have shorter : behind ≠ tokenOpening := by
        rintro rfl
        have := ends.length_le
        rw [List.length_cons] at this
        omega
      have inner := inductionHypothesis ((List.suffix_cons d behind).trans ends) shorter
        behindStart
      exact List.cons_prefix_cons.mpr ⟨rfl, inner⟩
  | replaced matched _ _ _ =>
    rw [token_append] at start
    rw [opening_borderless ends proper start]
    exact List.nil_prefix

/-- Restoring the written text gives the plain one, when the source does not
spell the opening of a token. -/
theorem restore_eq {store : FragmentStore} {source written plain : Text}
    (protects : Protects store source written plain) (absent : ¬ tokenOpening <:+: source) :
    store.restore written = plain := by
  induction protects with
  | done => rfl
  | @kept c source written plain others inductionHypothesis =>
    have noToken : ¬ tokenOpening <+: c :: written := by
      intro start
      rw [tokenOpening_eq] at start
      obtain ⟨rfl, behindStart⟩ := List.cons_prefix_cons.mp start
      have inner : ['@', 'B', 'L', 'O', 'C', 'K'] <+: source :=
        others.source_of_written (by decide) (by decide) behindStart
      apply absent
      rw [tokenOpening_eq]
      exact (List.cons_prefix_cons.mpr ⟨rfl, inner⟩).isInfix
    rw [restore_keep noToken,
      inductionHypothesis fun occurs => absent (occurs.trans (List.suffix_cons c source).isInfix)]
  | @replaced matched index fragment source written plain found _ inductionHypothesis =>
    rw [restore_token found, inductionHypothesis fun occurs =>
      absent (occurs.trans (List.suffix_append matched source).isInfix)]

end Protects

/-- What a protecting rule does at a text, beside what the plain rule does: both
do nothing, both keep what was read, or an answer is stored. -/
inductive Mirrors (text : Text) (store : FragmentStore) :
    FragmentStore × Option Edit → Option Edit → Prop
  | nothing : Mirrors text store (store, none) none
  | declined {rest : Text} (remains : Remains rest text) :
      Mirrors text store (store, some (Edit.byAnswer text rest none))
        (some (Edit.byAnswer text rest none))
  | stored {rest : Text} (remains : Remains rest text) (fragment : Text) :
      Mirrors text store
        ((store.push fragment).1, some (Edit.upTo text rest (store.push fragment).2))
        (some (Edit.upTo text rest fragment))

section Run

variable {σ : Type} (storeOf : σ → FragmentStore) {protecting : Rule σ} {plain : Rule Unit}

/-- A protecting scan whose every step mirrors the plain scan only adds to the
store, and writes a text that the grown store relates to the plain one. -/
theorem protects_of_mirrors
    (mirrors : ∀ state cursor text, text ≠ [] → Mirrors text (storeOf state)
      (storeOf (protecting state cursor text).1, (protecting state cursor text).2)
      (plain () cursor text).2)
    (state : σ) (cursor : Cursor) (text : Text) :
    Extends (storeOf state) (storeOf (editFrom protecting state cursor 0 text).1) ∧
      Protects (storeOf (editFrom protecting state cursor 0 text).1) text
        (editFrom protecting state cursor 0 text).2 (editFrom plain () cursor 0 text).2 := by
  -- The text left to read gets shorter; the store reached at its end is fixed,
  -- so the tokens written on the way are read against that store.
  induction length : text.length using Nat.strong_induction_on generalizing state cursor text with
  | _ size inductionHypothesis =>
    by_cases empty : text = []
    · subst empty
      exact ⟨by simpa using Extends.refl _, by simpa using Protects.done⟩
    have step := mirrors state cursor text empty
    generalize protectingStep : protecting state cursor text = outcome at step
    generalize plainStep : plain () cursor text = plainOutcome at step
    obtain ⟨next, offered⟩ := outcome
    obtain ⟨⟨⟩, plainOffered⟩ := plainOutcome
    generalize reached : storeOf next = store at step
    cases step with
    | nothing =>
      obtain ⟨c, behind, rfl⟩ := List.exists_cons_of_ne_nil empty
      have shorter : behind.length < size := by rw [← length, List.length_cons]; omega
      obtain ⟨grown, protects⟩ :=
        inductionHypothesis behind.length shorter next (cursor.advance c) behind rfl
      rw [editFrom_keep protectingStep, editFrom_keep plainStep]
      exact ⟨reached ▸ grown, .kept c protects⟩
    | @declined rest remains =>
      have shorter : rest.length < size := length ▸ remains.length_lt
      obtain ⟨matched, nonempty, rfl⟩ := remains
      obtain ⟨grown, protects⟩ :=
        inductionHypothesis rest.length shorter next (cursor.advanceOver matched) rest rfl
      rw [byAnswer_none] at protectingStep plainStep
      rw [editFrom_replace nonempty protectingStep, editFrom_replace nonempty plainStep]
      exact ⟨reached ▸ grown, protects.keptAll matched⟩
    | @stored rest remains fragment =>
      have shorter : rest.length < size := length ▸ remains.length_lt
      obtain ⟨matched, nonempty, rfl⟩ := remains
      obtain ⟨grown, protects⟩ :=
        inductionHypothesis rest.length shorter next (cursor.advanceOver matched) rest rfl
      rw [reached] at grown
      rw [editFrom_replace nonempty protectingStep, editFrom_replace nonempty plainStep]
      exact ⟨(Extends.push _ fragment).trans grown,
        .replaced matched (grown _ _ (get?_push_size _ fragment)) protects⟩

/-- Restoring what a protecting scan has written gives what the plain scan
writes, when every step mirrors and the text spells no opening of a token. -/
theorem restore_edit_of_mirrors
    (mirrors : ∀ state cursor text, text ≠ [] → Mirrors text (storeOf state)
      (storeOf (protecting state cursor text).1, (protecting state cursor text).2)
      (plain () cursor text).2)
    (state : σ) {text : Text} (absent : ¬ tokenOpening <:+: text) :
    (storeOf (edit protecting state text).1).restore (edit protecting state text).2 =
      (edit plain () text).2 :=
  (protects_of_mirrors storeOf mirrors state Cursor.start text).2.restore_eq absent

end Run

/-- Storing the answer to what was read mirrors writing it. -/
theorem mirrors_byAnswer {α : Type} {text rest : Text} (remains : Remains rest text)
    (store : FragmentStore) (answer : α → Option Text) (matched : α) :
    Mirrors text store
      ((stored (fun (_ : Unit) matched => ((), answer matched)) ((), store) matched).1.2,
        some (Edit.byAnswer text rest
          (stored (fun (_ : Unit) matched => ((), answer matched)) ((), store) matched).2))
      (some (Edit.byAnswer text rest (answer matched))) := by
  cases answered : answer matched with
  | none =>
    simp only [stored, answered]
    exact .declined remains
  | some fragment =>
    simp only [stored, answered, byAnswer_some]
    exact .stored remains fragment

variable (store : FragmentStore) {text : Text}

/-- Moving environments into the store and restoring them is replacing them. -/
theorem restore_protectEnvironment (name : Text) (maxOptions required : Nat)
    (answer : Environment → Option Text) (absent : ¬ tokenOpening <:+: text) :
    (store.protectEnvironment name maxOptions required answer text).1.restore
        (store.protectEnvironment name maxOptions required answer text).2 =
      replaceEnvironment name maxOptions required answer text := by
  refine restore_edit_of_mirrors Prod.snd ?_ ((), store) absent
  rintro ⟨⟨⟩, store⟩ cursor text -
  simp only [environmentRule]
  cases read : readEnvironment name maxOptions required cursor text with
  | none =>
    cases opened : Text.dropFront? (beginMarker name) text with
    | none => exact .nothing
    | some after =>
      obtain rfl := Text.dropFront?_eq_some_iff.mp opened
      exact .declined (.of_append (beginMarker_ne_nil name) (List.suffix_refl after))
  | some reading => exact mirrors_byAnswer (readEnvironment_remains read) store answer reading.1

/-- Moving delimited spans into the store and restoring them comes out as replacing them does. -/
theorem restore_protectBetween (opening closing : Text) (answer : Text → Option Text)
    (absent : ¬ tokenOpening <:+: text) :
    (store.protectBetween opening closing answer text).map (fun (store, text) =>
        store.restore text) = replaceBetween opening closing answer text := by
  obtain ⟨outcome, alike⟩ := exists_outcome opening closing text
  have filled : outcome = .ok () → ¬ (opening = [] ∧ closing = []) := by
    rintro rfl ⟨rfl, rfl⟩
    have impossible := alike (fun (_ : Unit) body => ((), answer body)) ()
    rw [editBetween_stuck] at impossible
    cases impossible
  rw [FragmentStore.protectBetween, replaceBetween, alike, alike]
  cases outcome with
  | error fault => rfl
  | ok =>
    refine congrArg Except.ok (restore_edit_of_mirrors Prod.snd ?_ ((), store) absent)
    rintro ⟨⟨⟩, store⟩ cursor text -
    simp only [delimitedRule]
    split
    · exact .nothing
    next inside opened =>
      cases read : splitUnescaped? closing (cursor.advanceOver opening).escaped inside with
      | none => exact .nothing
      | some reading =>
        exact mirrors_byAnswer (delimited_remains (filled rfl) opened read) store answer reading.1

/-- Moving inline math into the store and restoring it is replacing it. -/
theorem restore_protectDollars (answer : Text → Text) (absent : ¬ tokenOpening <:+: text) :
    (store.protectDollars answer text).1.restore (store.protectDollars answer text).2 =
      replaceDollars answer text := by
  refine restore_edit_of_mirrors id ?_ store absent
  intro store cursor text nonempty
  obtain ⟨c, inside, rfl⟩ := List.exists_cons_of_ne_nil nonempty
  simp only [dollarsRule]
  split
  · exact .nothing
  split
  · exact .nothing
  · exact .nothing
  next body rest nonempty read => exact .stored (dollars_remains read) (answer body)

/-- Protection followed by restoration is plain rewriting: with any store to
start from, any names and delimiters and any answers, restoring what a
protecting pass returns gives what the replacing pass returns; between delimiters
that bring a scan to a fault, both come to the same fault. The answers are
not looked at again, whatever they spell. -/
theorem restore_protect (store : FragmentStore) (text : Text)
    (absent : Text.contains tokenOpening text = false) :
    (∀ name maxOptions required answer,
      (store.protectEnvironment name maxOptions required answer text).1.restore
          (store.protectEnvironment name maxOptions required answer text).2 =
        replaceEnvironment name maxOptions required answer text) ∧
    (∀ opening closing answer,
      (store.protectBetween opening closing answer text).map (fun (store, text) =>
          store.restore text) =
        replaceBetween opening closing answer text) ∧
    (∀ answer,
      (store.protectDollars answer text).1.restore (store.protectDollars answer text).2 =
        replaceDollars answer text) := by
  have nowhere := Text.contains_eq_false_iff.mp absent
  refine ⟨?_, ?_, ?_⟩
  · intro name maxOptions required answer
    exact restore_protectEnvironment store name maxOptions required answer nowhere
  · intro opening closing answer
    exact restore_protectBetween store opening closing answer nowhere
  · intro answer
    exact restore_protectDollars store answer nowhere

/-- An answer that spells the token of an older fragment comes back as it is. -/
theorem restore_protect_hostile_answer :
    Text.contains tokenOpening "a$b$c".toList = false ∧
      ((⟨#["old".toList]⟩ : FragmentStore).protectDollars (fun _ => token 0)
          "a$b$c".toList).1.restore
        ((⟨#["old".toList]⟩ : FragmentStore).protectDollars (fun _ => token 0)
          "a$b$c".toList).2 = 'a' :: token 0 ++ ['c'] := by
  have spelled : Text.contains tokenOpening "a$b$c".toList = false := by decide
  refine ⟨spelled, ?_⟩
  rw [(restore_protect ⟨#["old".toList]⟩ "a$b$c".toList spelled).2.2 fun _ => token 0]
  decide

end LatexMarkdown.FragmentStore
