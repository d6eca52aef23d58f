import LatexMarkdown.Proofs.Pieces
import LatexMarkdown.Proofs.Rendering

/-!
# Passes that only take away

The passes over indentation, blanks and surplus lines leave a text as it is or make it
shorter, and so does the restoration over an empty store. None of them brings in anything
but spaces. A text that comes back from several of them unchanged was therefore changed by
none.
-/

namespace LatexMarkdown

open Scan

/-- What leaves every text as it is or makes it shorter, and brings in nothing but
spaces. -/
structure Shrinks (pass : Text → Text) : Prop where
  shorter : ∀ text, pass text = text ∨ (pass text).length < text.length
  fewer : ∀ (counted : Char → Bool), counted ' ' = false →
    ∀ text, (pass text).countP counted ≤ text.countP counted

namespace Shrinks

variable {pass other : Text → Text}

theorem length_le (shrinks : Shrinks pass) (text : Text) : (pass text).length ≤ text.length := by
  rcases shrinks.shorter text with same | less
  · rw [same]
  · exact Nat.le_of_lt less

/-- A character other than a space does not come in. -/
theorem not_mem (shrinks : Shrinks pass) {c : Char} (unspaced : c ≠ ' ') {text : Text}
    (absent : c ∉ text) : c ∉ pass text := by
  rw [← List.count_eq_zero] at absent ⊢
  have fewer := shrinks.fewer (· == c) (beq_eq_false_iff_ne.mpr unspaced.symm) text
  rw [← List.count_eq_countP, ← List.count_eq_countP, absent] at fewer
  exact Nat.le_zero.mp fewer

/-- One pass after another. -/
theorem comp (first : Shrinks pass) (second : Shrinks other) : Shrinks (other ∘ pass) where
  shorter text := by
    rcases second.shorter (pass text) with same | less
    · rw [Function.comp_apply, same]
      exact first.shorter text
    · exact .inr (less.trans_le (first.length_le text))
  fewer counted unspaced text :=
    (second.fewer counted unspaced (pass text)).trans (first.fewer counted unspaced text)

/-- What comes back from the second pass unchanged was not changed by the first. -/
theorem eq_of_comp_eq (first : Shrinks pass) (second : Shrinks other) {text : Text}
    (same : other (pass text) = text) : pass text = text := by
  refine (first.shorter text).resolve_right fun less => ?_
  have back := second.length_le (pass text)
  rw [same] at back
  omega

/-- A pass that gives parts of a text shrinks it. -/
theorem of_sublist (parts : ∀ text, (pass text).Sublist text) : Shrinks pass where
  shorter text := by
    rcases (parts text).length_le.lt_or_eq with less | same
    · exact .inr less
    · exact .inl ((parts text).eq_of_length same)
  fewer _ _ text := (parts text).countP_le

/-- A rule that looks only ahead and offers less than it takes shrinks a text. -/
theorem editAhead {ahead : Text → Option Edit}
    (offers : ∀ suffix edit, ahead suffix = some edit → ∃ matched rest,
      suffix = matched ++ rest ∧ edit = Edit.upTo suffix rest edit.replacement ∧
        edit.replacement.length < matched.length ∧
        ∀ counted : Char → Bool, counted ' ' = false →
          edit.replacement.countP counted ≤ matched.countP counted) :
    Shrinks (Scan.editAhead ahead) := by
  have both (text : Text) :
      (Scan.editAhead ahead text = text ∨ (Scan.editAhead ahead text).length < text.length) ∧
        ∀ counted : Char → Bool, counted ' ' = false →
          (Scan.editAhead ahead text).countP counted ≤ text.countP counted := by
    induction length : text.length using Nat.strong_induction_on generalizing text with
    | h size inductionHypothesis =>
      cases text with
      | nil => exact ⟨.inl rfl, fun _ _ => Nat.le_refl _⟩
      | cons c rest =>
        cases offered : ahead (c :: rest) with
        | none =>
          obtain ⟨shorter, fewer⟩ := inductionHypothesis rest.length (by simp [← length]) rest rfl
          rw [editAhead_keep offered]
          constructor
          · rcases shorter with same | less
            · exact .inl (congrArg (c :: ·) same)
            · exact .inr (by simpa [← length] using less)
          · intro counted unspaced
            have later := fewer counted unspaced
            rw [List.countP_cons, List.countP_cons]
            omega
        | some edit =>
          obtain ⟨matched, behind, whole, width, less, taken⟩ := offers _ _ offered
          have nonempty : matched ≠ [] := by
            rintro rfl
            exact absurd less (Nat.not_lt_zero _)
          have shorter : behind.length < size := by
            have filled := List.length_pos_iff.mpr nonempty
            rw [← length, whole, List.length_append]
            omega
          obtain ⟨later, fewer⟩ := inductionHypothesis behind.length shorter behind rfl
          rw [whole] at offered width ⊢
          rw [editAhead_replace nonempty (by rw [offered, ← width])]
          have atMost : (Scan.editAhead ahead behind).length ≤ behind.length := by
            rcases later with same | less
            · rw [same]
            · exact Nat.le_of_lt less
          constructor
          · right
            rw [← length, whole, List.length_append, List.length_append]
            omega
          · intro counted unspaced
            rw [List.countP_append, List.countP_append]
            exact Nat.add_le_add (taken counted unspaced) (fewer counted unspaced)
  exact ⟨fun text => (both text).1, fun counted unspaced text => (both text).2 counted unspaced⟩

end Shrinks

/-! ## The passes over blanks -/

namespace Text

/-- Parts of pieces, joined, are part of the joined pieces. -/
theorem joinWith_sublist_of_forall₂ (separator : Text) {parts pieces : List Text}
    (each : List.Forall₂ List.Sublist parts pieces) :
    (joinWith separator parts).Sublist (joinWith separator pieces) := by
  induction each with
  | nil => exact List.Sublist.refl _
  | cons first others inductionHypothesis =>
    cases others with
    | nil => exact first
    | cons => exact (first.append (List.Sublist.refl separator)).append inductionHypothesis

/-- Some of the pieces, joined, are part of the joined pieces. -/
theorem joinWith_sublist (separator : Text) {some all : List Text} (within : some.Sublist all) :
    (joinWith separator some).Sublist (joinWith separator all) := by
  induction within with
  | slnil => exact List.Sublist.refl _
  | @cons some all piece _ inductionHypothesis =>
    cases all with
    | nil => simpa [joinWith] using inductionHypothesis.trans (List.nil_sublist piece)
    | cons next others => exact inductionHypothesis.trans (List.sublist_append_right ..)
  | @cons_cons some all piece within inductionHypothesis =>
    cases some with
    | nil =>
      cases all with
      | nil => exact List.Sublist.refl _
      | cons next others =>
        rw [joinWith, joinWith, List.append_assoc]
        exact List.sublist_append_left ..
    | cons next others =>
      cases all with
      | nil => exact absurd within (by simp)
      | cons first further =>
        exact (List.Sublist.refl (piece ++ separator)).append inductionHypothesis

/-- A change that gives parts of lines gives parts of a text. -/
theorem shrinks_mapLines {change : Text → Text} (parts : ∀ line, (change line).Sublist line) :
    Shrinks (mapLines change) := by
  refine .of_sublist fun text => ?_
  have lines : List.Forall₂ List.Sublist ((splitOn '\n' text).map change) (splitOn '\n' text) := by
    rw [List.forall₂_map_left_iff, List.forall₂_same]
    exact fun line _ => parts line
  have joined := joinWith_sublist_of_forall₂ ['\n'] lines
  rwa [joinWith_splitOn] at joined

theorem shrinks_stripIndentation : Shrinks stripIndentation := by
  refine shrinks_mapLines fun line => ?_
  rw [withoutIndentation]
  split
  · exact List.Sublist.refl line
  · exact (List.dropWhile_suffix _).sublist

theorem shrinks_stripLineEnds : Shrinks stripLineEnds := by
  refine shrinks_mapLines fun line => ?_
  rw [dropTrailing_eq_rdropWhile]
  exact (List.rdropWhile_prefix _ _).sublist

theorem shrinks_squeezeSpaces : Shrinks squeezeSpaces := by
  refine .editAhead fun suffix edit offered => ?_
  cases suffix with
  | nil => simp at offered
  | cons c rest =>
    simp only [Option.ite_none_right_eq_some, Bool.and_eq_true, decide_eq_true_eq,
      Option.some.injEq] at offered
    obtain ⟨⟨-, long⟩, rfl⟩ := offered
    refine ⟨c :: rest.takeWhile isSpaceOrTab, rest.dropWhile isSpaceOrTab, ?_, ?_, ?_, ?_⟩
    · rw [List.cons_append, List.takeWhile_append_dropWhile]
    · have whole := congrArg List.length (List.takeWhile_append_dropWhile (p := isSpaceOrTab) (l := rest))
      rw [List.length_append] at whole
      simp only [Edit.upTo, List.length_cons, Edit.mk.injEq, and_true]
      omega
    · rw [List.length_cons]
      exact Nat.succ_lt_succ long
    · intro counted unspaced
      rw [List.countP_cons, List.countP_cons, List.countP_cons, unspaced]
      simp

theorem shrinks_squeezeLineBreaks : Shrinks squeezeLineBreaks := by
  refine .editAhead fun suffix edit offered => ?_
  simp only [Option.ite_none_right_eq_some, Option.some.injEq] at offered
  obtain ⟨long, rfl⟩ := offered
  refine ⟨suffix.takeWhile (· = '\n'), suffix.dropWhile (· = '\n'), ?_, ?_, ?_, ?_⟩
  · rw [List.takeWhile_append_dropWhile]
  · have whole := congrArg List.length
      (List.takeWhile_append_dropWhile (p := fun c => decide (c = '\n')) (l := suffix))
    rw [List.length_append] at whole
    simp only [Edit.upTo, Edit.mk.injEq, and_true]
    omega
  · exact long
  · intro counted _
    have breaks : suffix.takeWhile (· = '\n') =
        List.replicate (suffix.takeWhile (· = '\n')).length '\n' :=
      List.eq_replicate_of_mem fun c member => by simpa using List.mem_takeWhile_imp member
    have double : ['\n', '\n'] = List.replicate 2 '\n' := rfl
    rw [breaks]
    simp only [double, List.countP_replicate]
    split
    · exact Nat.le_of_lt long
    · exact Nat.le_refl 0

/-- Normal blanks are never more blanks. -/
theorem shrinks_normalizeBlanks : Shrinks normalizeBlanks :=
  ((shrinks_stripIndentation.comp shrinks_stripLineEnds).comp shrinks_squeezeSpaces).comp
    shrinks_squeezeLineBreaks

/-- Where blanks are in normal form there is no indentation to drop. -/
theorem stripIndentation_of_normal {text : Text} (normal : normalizeBlanks text = text) :
    stripIndentation text = text :=
  shrinks_stripIndentation.eq_of_comp_eq
    ((shrinks_stripLineEnds.comp shrinks_squeezeSpaces).comp shrinks_squeezeLineBreaks) normal

theorem dropSurplusBlankLines_sublist (fenced afterBlank : Bool) (lines : List Text) :
    (dropSurplusBlankLines fenced afterBlank lines).Sublist lines := by
  induction lines generalizing fenced afterBlank with
  | nil => exact List.Sublist.refl []
  | cons line others inductionHypothesis =>
    rw [dropSurplusBlankLines]
    split
    · exact (inductionHypothesis ..).cons_cons line
    split
    · split
      · exact (inductionHypothesis ..).cons line
      · exact (inductionHypothesis ..).cons_cons line
    · exact (inductionHypothesis ..).cons_cons line

theorem shrinks_finishLayout : Shrinks finishLayout := by
  refine .of_sublist fun text => ?_
  rw [finishLayout]
  split
  · exact List.nil_sublist text
  · have joined := joinWith_sublist ['\n']
      (dropSurplusBlankLines_sublist false false (splitOn '\n' text))
    rwa [joinWith_splitOn] at joined

end Text

/-! ## Tokens -/

/-- Over an empty store tokens are dropped. -/
theorem FragmentStore.shrinks_restore_empty : Shrinks empty.restore := by
  refine .editAhead fun suffix edit offered => ?_
  rw [Option.map_eq_some_iff] at offered
  obtain ⟨⟨digits, rest⟩, read, rfl⟩ := offered
  obtain ⟨-, -, whole⟩ := Fragment.readToken_eq_some_iff.mp read
  have nothing : empty.fragmentOf digits = [] := by
    rw [fragmentOf]
    cases Fragment.tokenIndex? digits <;> rfl
  refine ⟨Fragment.tokenOpening ++ (digits ++ Fragment.tokenClosing), rest, ?_, rfl, ?_, ?_⟩
  · rw [whole, List.append_assoc, List.append_assoc]
  · simp only [Edit.upTo, nothing, List.length_append]
    exact Nat.lt_of_lt_of_le (by decide) (Nat.le_add_right Fragment.tokenOpening.length _)
  · intro counted _
    simp only [Edit.upTo, nothing]
    exact Nat.zero_le _

end LatexMarkdown
