import LatexMarkdown.Proofs.AbsentPasses
import LatexMarkdown.Proofs.Pieces

/-!
# The commands that a text spells

A text put together from a few commands and from plain pieces has a backslash only
where one of these commands begins. Passes that look for another command, or for an
environment with another name, find nothing in it.
-/

namespace LatexMarkdown

open Scan

/-- Behind every backslash of a text stands one of some heads. -/
def Spells (heads : List Text) (text : Text) : Prop :=
  ∀ rest, '\\' :: rest <:+ text → ∃ head ∈ heads, head <+: rest

namespace Spells

variable {heads more : List Text} {text before after : Text}

theorem of_plain (plain : '\\' ∉ text) : Spells heads text :=
  fun _ within => absurd (within.subset (List.mem_cons_self ..)) plain

theorem mono (spells : Spells heads text) (within : heads ⊆ more) : Spells more text := by
  intro rest suffix
  obtain ⟨head, listed, starts⟩ := spells rest suffix
  exact ⟨head, within listed, starts⟩

theorem append (first : Spells heads before) (second : Spells heads after) :
    Spells heads (before ++ after) := by
  rintro rest ⟨front, spelled⟩
  rcases List.append_eq_append_iff.mp spelled with ⟨inside, rfl, whole⟩ | ⟨back, rfl, whole⟩
  · cases inside with
    | nil => exact second rest ⟨[], whole⟩
    | cons c others =>
      obtain ⟨rfl, rfl⟩ := List.cons.inj whole
      obtain ⟨head, listed, starts⟩ := first others (List.suffix_append ..)
      exact ⟨head, listed, starts.trans (List.prefix_append ..)⟩
  · exact second rest ⟨back, whole.symm⟩

/-- A command, its head at its start and no further backslash. -/
theorem command {head : Text} (listed : head ∈ heads) (plain : '\\' ∉ head ++ text) :
    Spells heads ('\\' :: (head ++ text)) := by
  intro rest within
  rcases List.suffix_cons_iff.mp within with whole | inside
  · rw [List.cons.injEq] at whole
    exact ⟨head, listed, whole.2 ▸ List.prefix_append head text⟩
  · exact absurd (inside.subset (List.mem_cons_self ..)) plain

/-- A command without anything behind it. -/
theorem single {head : Text} (plain : '\\' ∉ head) : Spells [head] ('\\' :: head) := by
  have spells : Spells [head] ('\\' :: (head ++ [])) :=
    command (List.mem_singleton_self head) (by rwa [List.append_nil])
  rwa [List.append_nil] at spells

theorem flatMap {α : Type} {items : List α} {write : α → Text}
    (each : ∀ item ∈ items, Spells heads (write item)) : Spells heads (items.flatMap write) := by
  induction items with
  | nil => exact of_plain List.not_mem_nil
  | cons item others inductionHypothesis =>
    rw [List.forall_mem_cons] at each
    exact each.1.append (inductionHypothesis each.2)

theorem joinWith {separator : Text} (plain : '\\' ∉ separator) {pieces : List Text}
    (each : ∀ piece ∈ pieces, Spells heads piece) :
    Spells heads (Text.joinWith separator pieces) := by
  induction pieces with
  | nil => exact of_plain List.not_mem_nil
  | cons piece others inductionHypothesis =>
    rw [List.forall_mem_cons] at each
    cases others with
    | nil => exact each.1
    | cons next later =>
      exact (each.1.append (of_plain plain)).append (inductionHypothesis each.2)

/-- A name that neither starts a head nor starts with one starts nowhere in the text,
whatever follows it. -/
theorem not_prefix (spells : Spells heads text) {wanted : Text}
    (foreign : ∀ head ∈ heads, ¬ wanted <+: head ∧ ¬ head <+: wanted) {c : Char} {suffix : Text}
    (within : c :: suffix <:+ text) (rest : Text) : ¬ '\\' :: wanted <+: c :: (suffix ++ rest) := by
  intro start
  obtain ⟨rfl, named⟩ := List.cons_prefix_cons.mp start
  obtain ⟨head, listed, starts⟩ := spells suffix within
  have reached : head <+: suffix ++ rest := starts.trans (List.prefix_append ..)
  obtain ⟨short, long⟩ := foreign head listed
  exact (List.prefix_or_prefix_of_prefix named reached).elim short long

/-- Such a name is not spelled. -/
theorem lacks (spells : Spells heads text) {names : List Text}
    (foreign : ∀ name ∈ names, ∀ head ∈ heads, ¬ name <+: head ∧ ¬ head <+: name) :
    Lacks names text := by
  rintro name listed ⟨before, after, spelled⟩
  rw [List.append_assoc] at spelled
  have within : '\\' :: (name ++ after) <:+ text := ⟨before, spelled⟩
  refine spells.not_prefix (foreign name listed) within [] ?_
  rw [List.append_nil]
  exact List.cons_prefix_cons.mpr ⟨rfl, List.prefix_append ..⟩

/-- Where no head is left no backslash is. -/
theorem plain (spells : Spells [] text) : '\\' ∉ text := by
  intro member
  obtain ⟨before, after, rfl⟩ := List.append_of_mem member
  obtain ⟨head, listed, -⟩ := spells after (List.suffix_append ..)
  exact List.not_mem_nil listed

end Spells

end LatexMarkdown
