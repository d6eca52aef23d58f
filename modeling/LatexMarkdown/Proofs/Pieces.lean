import LatexMarkdown.Proofs.Editing
import LatexMarkdown.Text.Layout

/-!
# Occurrences in a text of pieces

A pattern occurs in a text of pieces when it occurs in a piece or is joined at a
seam between them. One without line breaks or blanks occurs in a text exactly
when it occurs in a line of it, and the layout of a finished document keeps
every line that is not blank.
-/

namespace LatexMarkdown.Text

/-- The end of one text and the start of the next one spell a pattern that
reaches over the seam. -/
def Joins (pattern before after : Text) : Prop :=
  ∃ front back, front ≠ [] ∧ back ≠ [] ∧ pattern = front ++ back ∧ front <:+ before ∧
    back <+: after

/-- A pattern occurs in two texts together when it occurs in one of them or is
joined at the seam. -/
theorem infix_append_iff {pattern before after : Text} :
    pattern <:+: before ++ after ↔
      pattern <:+: before ∨ pattern <:+: after ∨ Joins pattern before after :=
  List.infix_append_iff_ne_nil

/-- What is joined at a seam is joined there behind any further text. -/
theorem Joins.append_left {pattern before after : Text} (joins : Joins pattern before after)
    (further : Text) : Joins pattern (further ++ before) after := by
  obtain ⟨front, back, nonempty, filled, spelled, ends, starts⟩ := joins
  exact ⟨front, back, nonempty, filled, spelled, ends.trans (List.suffix_append ..), starts⟩

/-- A pattern occurs in a text of pieces exactly when it occurs in a piece or is
joined at a seam. -/
theorem infix_flatten_iff {pattern : Text} (nonempty : pattern ≠ []) {pieces : List Text} :
    pattern <:+: pieces.flatten ↔ (∃ piece ∈ pieces, pattern <:+: piece) ∨
      ∃ before after, pieces = before ++ after ∧ Joins pattern before.flatten after.flatten := by
  constructor
  · intro occurs
    induction pieces with
    | nil => exact absurd (List.eq_nil_of_infix_nil occurs) nonempty
    | cons piece others inductionHypothesis =>
      rw [List.flatten_cons, infix_append_iff] at occurs
      rcases occurs with here | later | joined
      · exact .inl ⟨piece, List.mem_cons_self .., here⟩
      · rcases inductionHypothesis later with ⟨other, member, inside⟩ | ⟨before, after, rfl, seam⟩
        · exact .inl ⟨other, List.mem_cons_of_mem piece member, inside⟩
        · exact .inr ⟨piece :: before, after, rfl, seam.append_left piece⟩
      · exact .inr ⟨[piece], others, rfl, by simpa using joined⟩
  · rintro (⟨piece, member, inside⟩ | ⟨before, after, rfl, joined⟩)
    · exact inside.trans (List.infix_of_mem_flatten member)
    · rw [List.flatten_append, infix_append_iff]
      exact .inr (.inr joined)

/-- No character of a text is in a pattern. -/
def Apart (text pattern : Text) : Prop :=
  ∀ c ∈ text, c ∉ pattern

instance (text pattern : Text) : Decidable (Apart text pattern) :=
  List.decidableBAll (· ∉ pattern) text

/-- No character of a text is blank. -/
def Unspaced (text : Text) : Prop :=
  ∀ c ∈ text, isBlank c = false

instance (text : Text) : Decidable (Unspaced text) :=
  List.decidableBAll (isBlank · = false) text

section Apart

variable {pattern : Text}

/-- A character is apart from the patterns that it is not in. -/
theorem apart_singleton {c : Char} (absent : c ∉ pattern) : Apart [c] pattern :=
  List.forall_mem_singleton.mpr absent

/-- A blank is not in a pattern without blanks. -/
theorem Unspaced.not_mem (unspaced : Unspaced pattern) {c : Char} (blank : isBlank c = true) :
    c ∉ pattern := by
  intro member
  rw [unspaced c member] at blank
  exact Bool.false_ne_true blank

/-- A character that is not in a pattern splits a text into parts in which the
pattern occurs by itself. -/
theorem infix_append_cons_iff {c : Char} (absent : c ∉ pattern) {before after : Text} :
    pattern <:+: before ++ c :: after ↔ pattern <:+: before ∨ pattern <:+: after := by
  constructor
  · intro occurs
    by_contra nowhere
    rw [not_or] at nowhere
    exact not_infix_append_cons absent nowhere.1 nowhere.2 occurs
  · rintro (left | right)
    · exact left.trans (List.infix_append_left ..)
    · exact right.trans ((List.suffix_cons c after).trans (List.suffix_append ..)).isInfix

/-- Characters in front that are not in a pattern add no occurrence of it. -/
theorem infix_append_left_iff {front text : Text} (apart : Apart front pattern) :
    pattern <:+: front ++ text ↔ pattern <:+: text := by
  induction front with
  | nil => rfl
  | cons c others inductionHypothesis =>
    rw [Apart, List.forall_mem_cons] at apart
    rw [List.cons_append, ← List.nil_append (c :: (others ++ text)),
      infix_append_cons_iff apart.1, inductionHypothesis apart.2, or_iff_right_iff_imp]
    exact fun empty => empty.trans List.nil_infix

/-- A stretch of characters that are not in a pattern splits a text into parts in
which the pattern occurs by itself. -/
theorem infix_around_iff {before middle after : Text} (nonempty : middle ≠ [])
    (apart : Apart middle pattern) :
    pattern <:+: before ++ middle ++ after ↔ pattern <:+: before ∨ pattern <:+: after := by
  obtain ⟨c, others, rfl⟩ := List.exists_cons_of_ne_nil nonempty
  rw [Apart, List.forall_mem_cons] at apart
  rw [List.append_assoc, List.cons_append, infix_append_cons_iff apart.1,
    infix_append_left_iff apart.2]

/-- Characters behind that are not in a pattern add no occurrence of it. -/
theorem infix_append_right_iff {text back : Text} (nonempty : pattern ≠ [])
    (apart : Apart back pattern) : pattern <:+: text ++ back ↔ pattern <:+: text := by
  cases back with
  | nil => rw [List.append_nil]
  | cons c others =>
    rw [← List.append_nil (text ++ c :: others), infix_around_iff (List.cons_ne_nil c others) apart,
      List.infix_nil, or_iff_left nonempty]

/-- Rewriting the characters that are not in a pattern by other such characters neither makes
nor breaks an occurrence of it. -/
theorem infix_flatMap_iff {change : Char → Text} (keeps : ∀ c ∈ pattern, change c = [c])
    (moves : ∀ c, c ∉ pattern → change c ≠ [] ∧ Apart (change c) pattern) (text : Text) :
    pattern <:+: text.flatMap change ↔ pattern <:+: text := by
  -- What has been read since the last rewritten character is carried in front.
  suffices general : ∀ before, pattern <:+: before ++ text.flatMap change ↔
      pattern <:+: before ++ text from general []
  induction text with
  | nil => exact fun _ => Iff.rfl
  | cons c rest inductionHypothesis =>
    intro before
    rw [List.flatMap_cons]
    by_cases inside : c ∈ pattern
    · rw [keeps c inside, ← List.append_assoc, inductionHypothesis, List.append_assoc]
      rfl
    · obtain ⟨nonempty, apart⟩ := moves c inside
      rw [← List.append_assoc, infix_around_iff nonempty apart, infix_append_cons_iff inside]
      exact or_congr_right (inductionHypothesis [])

/-- A pattern without the characters of a separator occurs in joined pieces
exactly when it occurs in a piece. -/
theorem infix_joinWith_iff {separator : Text} (separated : separator ≠ [])
    (apart : Apart separator pattern) (nonempty : pattern ≠ []) {pieces : List Text} :
    pattern <:+: joinWith separator pieces ↔ ∃ piece ∈ pieces, pattern <:+: piece := by
  induction pieces with
  | nil => simp [joinWith, nonempty]
  | cons piece others inductionHypothesis =>
    cases others with
    | nil => simp [joinWith]
    | cons next others =>
      rw [joinWith, infix_around_iff separated apart, inductionHypothesis,
        List.exists_mem_cons_iff (l := next :: others)]

/-- An edit that keeps a front of what it reads, and writes characters that are not in a pattern
for others that are not in it either, neither makes nor breaks an occurrence of it. -/
theorem infix_editAhead_iff {ahead : Text → Option Scan.Edit}
    (exchanges : ∀ suffix edit, ahead suffix = some edit → ∃ kept gone put rest,
      suffix = kept ++ gone ++ rest ∧ edit = Scan.Edit.upTo suffix rest (kept ++ put) ∧
        (gone ≠ [] ∧ Apart gone pattern) ∧ put ≠ [] ∧ Apart put pattern) (text : Text) :
    pattern <:+: Scan.editAhead ahead text ↔ pattern <:+: text := by
  -- What has been read since the last edit is carried in front.
  suffices general : ∀ before, pattern <:+: before ++ Scan.editAhead ahead text ↔
      pattern <:+: before ++ text from general []
  induction length : text.length using Nat.strong_induction_on generalizing text with
  | _ _ inductionHypothesis =>
    intro before
    subst length
    cases text with
    | nil => rfl
    | cons c rest =>
      cases offered : ahead (c :: rest) with
      | none =>
        have later := inductionHypothesis rest.length (by simp) rest rfl (before ++ [c])
        rw [List.append_assoc, List.append_assoc] at later
        rw [Scan.editAhead_keep offered]
        exact later
      | some edit =>
        obtain ⟨kept, gone, put, after, whole, rfl, ⟨filled, goneApart⟩, putFilled, putApart⟩ :=
          exchanges _ _ offered
        have shorter : after.length < (c :: rest).length := by
          have := List.length_pos_iff.mpr filled
          rw [whole, List.length_append, List.length_append]
          omega
        rw [whole] at offered ⊢
        rw [Scan.editAhead_replace (List.append_ne_nil_of_right_ne_nil kept filled) offered]
        simp only [← List.append_assoc]
        rw [infix_around_iff putFilled putApart, infix_around_iff filled goneApart]
        exact or_congr_right (inductionHypothesis after.length shorter after rfl [])

/-- Replacing a text whose characters are not in a pattern by another such text
neither makes nor breaks an occurrence of the pattern. -/
theorem infix_replaceAll_iff {found replacement : Text} (foundFilled : found ≠ [])
    (replacementFilled : replacement ≠ []) (foundApart : Apart found pattern)
    (replacementApart : Apart replacement pattern) (text : Text) :
    pattern <:+: Scan.replaceAll found replacement text ↔ pattern <:+: text := by
  refine infix_editAhead_iff (fun suffix edit offered => ?_) text
  obtain ⟨rest, dropped, rfl⟩ := Option.map_eq_some_iff.mp offered
  have whole : suffix = found ++ rest := dropFront?_eq_some_iff.mp dropped
  refine ⟨[], found, replacement, rest, whole, ?_, ⟨foundFilled, foundApart⟩, replacementFilled,
    replacementApart⟩
  simp [whole, Scan.Edit.upTo]

end Apart

/-- A character in front stands in the first piece, and the other pieces stay. -/
theorem keepInFirst_eq (c : Char) (pieces : List Text) :
    keepInFirst c pieces = (c :: pieces.headD []) :: pieces.tail := by
  cases pieces <;> rfl

/-- A character in front of the first piece stands in front of the joined
pieces. -/
theorem joinWith_keepInFirst (separator : Text) (c : Char) (pieces : List Text) :
    joinWith separator (keepInFirst c pieces) = c :: joinWith separator pieces := by
  match pieces with
  | [] => rfl
  | [_] => rfl
  | _ :: _ :: _ => rfl

/-- A text has at least one piece. -/
theorem splitOn_ne_nil (separator : Char) (text : Text) : splitOn separator text ≠ [] := by
  cases text with
  | nil => exact List.cons_ne_nil _ _
  | cons c rest =>
    rw [splitOn]
    split
    · exact List.cons_ne_nil _ _
    · cases splitOn separator rest <;> exact List.cons_ne_nil _ _

/-- The pieces between separators, joined by the separator, are the text. -/
theorem joinWith_splitOn (separator : Char) (text : Text) :
    joinWith [separator] (splitOn separator text) = text := by
  induction text with
  | nil => rfl
  | cons c rest inductionHypothesis =>
    rw [splitOn]
    split
    next same =>
      obtain ⟨first, others, split⟩ := List.exists_cons_of_ne_nil (splitOn_ne_nil separator rest)
      rw [split] at inductionHypothesis ⊢
      rw [joinWith, inductionHypothesis, same]
      rfl
    · rw [joinWith_keepInFirst, inductionHypothesis]

/-- No word starts at a blank. -/
theorem words_blank {c : Char} {rest : Text} (blank : isBlank c = true) :
    words (c :: rest) = words rest :=
  if_pos blank

/-- A run of characters that are not blank is a word, if nothing extends it. -/
theorem words_run {run rest : Text} (nonempty : run ≠ [])
    (visible : ∀ c ∈ run, isBlank c = false) (stops : ∀ c, rest.head? = some c → isBlank c = true) :
    words (run ++ rest) = run :: words rest := by
  have shown {c : Char} (visible : isBlank c = false) : ¬ isBlank c = true := by
    rw [visible]
    exact Bool.false_ne_true
  induction run with
  | nil => exact absurd rfl nonempty
  | cons c others inductionHypothesis =>
    rw [List.forall_mem_cons] at visible
    cases others with
    | nil =>
      cases rest with
      | nil => exact if_neg (shown visible.1)
      | cons d later => exact (if_neg (shown visible.1)).trans (if_pos (stops d rfl))
    | cons next others =>
      have word := inductionHypothesis (List.cons_ne_nil next others) visible.2
      refine (if_neg (shown visible.1)).trans
        ((if_neg (shown (visible.2 next (List.mem_cons_self ..)))).trans ?_)
      rw [List.append_eq, word]

/-- A pattern without blanks occurs in a text exactly when it occurs in a word. -/
theorem infix_words_iff {pattern : Text} (nonempty : pattern ≠ [])
    (unspaced : Unspaced pattern) (text : Text) :
    (∃ word ∈ words text, pattern <:+: word) ↔ pattern <:+: text := by
  induction length : text.length using Nat.strong_induction_on generalizing text with
  | _ _ inductionHypothesis =>
    subst length
    cases text with
    | nil =>
      refine iff_of_false (fun found => ?_) fun occurs =>
        nonempty (List.eq_nil_of_infix_nil occurs)
      obtain ⟨word, member, -⟩ := found
      exact List.not_mem_nil member
    | cons c rest =>
      cases blank : isBlank c with
      | true =>
        have here := apart_singleton (unspaced.not_mem blank)
        have later : (∃ word ∈ words rest, pattern <:+: word) ↔ pattern <:+: rest :=
          inductionHypothesis rest.length (by simp) rest rfl
        rw [words_blank blank, later, ← List.singleton_append, infix_append_left_iff here]
      | false =>
        -- The text is its first word and what follows, which is empty or starts with a blank.
        obtain ⟨run, after, whole, filled, shown, stops⟩ :
            ∃ run after, c :: rest = run ++ after ∧ run ≠ [] ∧
              (∀ d ∈ run, isBlank d = false) ∧ ∀ d, after.head? = some d → isBlank d = true := by
          refine ⟨(c :: rest).takeWhile (!isBlank ·), (c :: rest).dropWhile (!isBlank ·),
            List.takeWhile_append_dropWhile.symm, by simp [blank], fun d member => ?_,
            fun d head => ?_⟩
          · simpa using List.mem_takeWhile_imp member
          · have stopped := List.head?_dropWhile_not (!isBlank ·) (c :: rest)
            rw [head] at stopped
            simpa using stopped
        have shorter : after.length < (c :: rest).length := by
          have := List.length_pos_iff.mpr filled
          rw [whole, List.length_append]
          omega
        have later : (∃ word ∈ words after, pattern <:+: word) ↔ pattern <:+: after :=
          inductionHypothesis after.length shorter after rfl
        rw [whole, words_run filled shown stops, List.exists_mem_cons_iff, later]
        cases after with
        | nil => simp [nonempty]
        | cons d behind =>
          have absent := unspaced.not_mem (stops d rfl)
          rw [infix_append_cons_iff absent, ← List.singleton_append,
            infix_append_left_iff (apart_singleton absent)]

/-- Collapsing blanks neither makes nor breaks an occurrence of a pattern without
blanks. -/
theorem infix_collapseBlanks_iff {pattern : Text} (nonempty : pattern ≠ [])
    (unspaced : Unspaced pattern) (text : Text) :
    pattern <:+: collapseBlanks text ↔ pattern <:+: text := by
  have apart : Apart [' '] pattern := apart_singleton (unspaced.not_mem (by decide))
  rw [collapseBlanks, infix_joinWith_iff (by simp) apart nonempty,
    infix_words_iff nonempty unspaced]

/-- Of the lines of a finished document only blank ones are dropped. -/
theorem mem_dropSurplusBlankLines {line : Text} (visible : isBlankText line = false)
    (fenced afterBlank : Bool) (lines : List Text) :
    line ∈ dropSurplusBlankLines fenced afterBlank lines ↔ line ∈ lines := by
  induction lines generalizing fenced afterBlank with
  | nil => rw [dropSurplusBlankLines]
  | cons first others inductionHypothesis =>
    rw [dropSurplusBlankLines]
    split
    · rw [List.mem_cons, List.mem_cons, inductionHypothesis]
    split
    next blank =>
      have different : line ≠ first := by
        rintro rfl
        rw [Bool.and_eq_true, visible] at blank
        exact Bool.false_ne_true blank.2
      split
      · rw [inductionHypothesis, List.mem_cons, or_iff_right different]
      · rw [List.mem_cons, List.mem_cons, inductionHypothesis]
    · rw [List.mem_cons, List.mem_cons, inductionHypothesis]

/-- Finishing the layout neither makes nor breaks an occurrence of a pattern
without blanks. -/
theorem infix_finishLayout_iff {pattern text : Text} (nonempty : pattern ≠ [])
    (unspaced : Unspaced pattern) :
    pattern <:+: finishLayout text ↔ pattern <:+: text := by
  have visible {line : Text} (inside : pattern <:+: line) : isBlankText line = false := by
    obtain ⟨c, others, rfl⟩ := List.exists_cons_of_ne_nil nonempty
    refine Bool.eq_false_iff.mpr fun blank => ?_
    have space : isBlank c = true :=
      List.all_eq_true.mp blank c (inside.subset (List.mem_cons_self ..))
    exact unspaced.not_mem space (List.mem_cons_self ..)
  have unbroken : Apart ['\n'] pattern := apart_singleton (unspaced.not_mem (by decide))
  rw [finishLayout]
  split
  next blank =>
    refine iff_of_false (fun occurs => nonempty (List.eq_nil_of_infix_nil occurs)) fun occurs => ?_
    rw [visible occurs] at blank
    exact Bool.false_ne_true blank
  · conv_rhs => rw [← joinWith_splitOn '\n' text]
    rw [infix_joinWith_iff (by simp) unbroken nonempty,
      infix_joinWith_iff (by simp) unbroken nonempty]
    refine exists_congr fun line => and_congr_left fun inside => ?_
    exact mem_dropSurplusBlankLines (visible inside) false false _

end LatexMarkdown.Text
