import LatexMarkdown.Fragment.Store
import Mathlib.Data.List.Chain
import Mathlib.Data.List.Infix
import Mathlib.Data.List.TakeWhile

/-!
# Fronts, suffixes and occurrences

What the tests of a text for a pattern say, in terms of concatenation. A reader
that gives back the text after what it has read gives back a suffix of it.
-/

namespace LatexMarkdown.Text

/-- A front is dropped exactly when the text is that front and what remains. -/
theorem dropFront?_eq_some_iff {front text rest : Text} :
    dropFront? front text = some rest ↔ text = front ++ rest := by
  induction front generalizing text with
  | nil => simp [dropFront?]
  | cons expected front inductionHypothesis =>
    cases text with
    | nil => simp [dropFront?]
    | cons c after =>
      by_cases same : expected = c
      · simp [dropFront?, same, inductionHypothesis]
      · simp [dropFront?, same, Ne.symm same]

/-- What follows a front is found behind it. -/
@[simp] theorem dropFront?_append (front rest : Text) :
    dropFront? front (front ++ rest) = some rest :=
  dropFront?_eq_some_iff.mpr rfl

/-- A text starts with its fronts and with nothing else. -/
theorem startsWith_iff {front text : Text} : startsWith front text = true ↔ front <+: text := by
  rw [startsWith, Option.isSome_iff_exists]
  constructor
  · rintro ⟨rest, found⟩
    exact ⟨rest, (dropFront?_eq_some_iff.mp found).symm⟩
  · rintro ⟨rest, rfl⟩
    exact ⟨rest, dropFront?_append front rest⟩

/-- A front that the text does not start with cannot be dropped. -/
theorem dropFront?_eq_none_iff {front text : Text} :
    dropFront? front text = none ↔ ¬ front <+: text := by
  rw [← startsWith_iff, startsWith]
  cases dropFront? front text <;> simp

/-- A text contains the patterns that occur in it. -/
theorem contains_iff {pattern text : Text} : contains pattern text = true ↔ pattern <:+: text := by
  induction text with
  | nil => simp [contains, List.isEmpty_iff]
  | cons c rest inductionHypothesis =>
    rw [contains, Bool.or_eq_true, startsWith_iff, inductionHypothesis, List.infix_cons_iff]

/-- A pattern that the text does not contain occurs nowhere in it. -/
theorem contains_eq_false_iff {pattern text : Text} :
    contains pattern text = false ↔ ¬ pattern <:+: text := by
  rw [← contains_iff, Bool.not_eq_true]

/-- A pattern whose first character is not in the text does not occur in it. -/
theorem not_infix_of_not_mem {c : Char} {pattern text : Text} (absent : c ∉ text) :
    ¬ (c :: pattern) <:+: text :=
  fun occurs => absent (occurs.subset (List.mem_cons_self ..))

/-- Two texts of which neither starts with the other start no common text. -/
theorem not_prefix_append {name front : Text} (short : ¬ name <+: front) (long : ¬ front <+: name)
    (rest : Text) : ¬ name <+: front ++ rest := fun start =>
  (List.prefix_or_prefix_of_prefix start (List.prefix_append front rest)).elim short long

/-- A front does not reach over a character that is not in it. -/
theorem prefix_of_prefix_append_cons {front before after : Text} {c : Char}
    (absent : c ∉ front) (start : front <+: before ++ c :: after) : front <+: before := by
  induction before generalizing front with
  | nil =>
    cases front with
    | nil => exact List.nil_prefix
    | cons d others =>
      obtain ⟨rfl, -⟩ := List.cons_prefix_cons.mp start
      exact absurd (List.mem_cons_self ..) absent
  | cons d others inductionHypothesis =>
    cases front with
    | nil => exact List.nil_prefix
    | cons e behind =>
      obtain ⟨rfl, inner⟩ := List.cons_prefix_cons.mp start
      rw [List.mem_cons, not_or] at absent
      exact List.cons_prefix_cons.mpr ⟨rfl, inductionHypothesis absent.2 inner⟩

/-- A pattern that does not occur on either side of a character which is not in
it does not occur at all. -/
theorem not_infix_append_cons {pattern before after : Text} {c : Char} (absent : c ∉ pattern)
    (left : ¬ pattern <:+: before) (right : ¬ pattern <:+: after) :
    ¬ pattern <:+: before ++ c :: after := by
  induction before with
  | nil =>
    rw [List.nil_append, List.infix_cons_iff, not_or]
    refine ⟨fun start => left ?_, right⟩
    have inside : pattern <+: [] := prefix_of_prefix_append_cons absent start
    exact inside.isInfix
  | cons d others inductionHypothesis =>
    rw [List.infix_cons_iff, not_or] at left
    rw [List.cons_append, List.infix_cons_iff, not_or]
    refine ⟨fun start => left.1 ?_, inductionHypothesis left.2⟩
    rw [← List.cons_append] at start
    exact prefix_of_prefix_append_cons absent start

/-- A character stands nowhere twice in a row exactly when no two neighbours are
both that character. -/
theorem not_pair_infix_iff {c : Char} {text : Text} :
    ¬ [c, c] <:+: text ↔ text.IsChain fun first second => ¬ (first = c ∧ second = c) := by
  rw [List.isChain_iff_forall_rel_of_append_cons_cons]
  constructor
  · rintro absent first second before after rfl ⟨rfl, rfl⟩
    exact absent ⟨before, after, by simp⟩
  · rintro apart ⟨before, after, same⟩
    have split : text = before ++ c :: c :: after := by
      rw [← same]
      simp
    exact apart split ⟨rfl, rfl⟩

/-- A character that is not in a text does not stand in it twice in a row. -/
theorem not_pair_infix_of_not_mem {c : Char} {text : Text} (absent : c ∉ text) :
    ¬ [c, c] <:+: text :=
  not_infix_of_not_mem absent

/-- A character that stands twice in a row in neither of two texts does not do
so in both together, unless it ends the one and starts the other. -/
theorem not_pair_infix_append {c : Char} {before after : Text} (left : ¬ [c, c] <:+: before)
    (right : ¬ [c, c] <:+: after)
    (gap : before.getLast? ≠ some c ∨ after.head? ≠ some c) : ¬ [c, c] <:+: before ++ after := by
  rw [not_pair_infix_iff] at left right ⊢
  refine List.isChain_append.mpr ⟨left, right, ?_⟩
  rintro first last second head ⟨rfl, rfl⟩
  rcases gap with apart | apart
  · exact apart last
  · exact apart head

end LatexMarkdown.Text

namespace LatexMarkdown.Scan

/-- The remaining text of a reader that has read at least one character. -/
def Remains (rest text : Text) : Prop :=
  ∃ matched, matched ≠ [] ∧ text = matched ++ rest

namespace Remains

/-- What remains after a nonempty front and then a suffix of the rest remains. -/
theorem of_append {front rest text : Text} (nonempty : front ≠ []) (suffix : rest <:+ text) :
    Remains rest (front ++ text) := by
  obtain ⟨read, rfl⟩ := suffix
  exact ⟨front ++ read, by simp [nonempty], by simp⟩

/-- What remains is shorter. -/
theorem length_lt {rest text : Text} (remains : Remains rest text) :
    rest.length < text.length := by
  obtain ⟨matched, nonempty, rfl⟩ := remains
  have := List.length_pos_iff.mpr nonempty
  simp
  omega

end Remains

/-- A reader inside a group that keeps a character leaves what it left before. -/
theorem keepFirst_eq_some {c : Char} {reading : Option (Text × Text)} {inner rest : Text}
    (kept : keepFirst c reading = some (inner, rest)) :
    ∃ others, reading = some (others, rest) ∧ inner = c :: others := by
  cases reading with
  | none => simp [keepFirst] at kept
  | some pair =>
    simp only [keepFirst, Option.some.injEq, Prod.mk.injEq] at kept
    exact ⟨pair.1, by rw [← kept.2], kept.1.symm⟩

end LatexMarkdown.Scan
