import LatexMarkdown.Proofs.CodeBlock

/-!
# Comments around a code block

Comments are dropped line by line, and the lines of a code block are kept whole.
So is the line in which the block starts, and the rest of the line in which it
ends. A line that names the closing marker already before the block is taken for
its end.
-/

namespace LatexMarkdown

open Scan

/-! ## Lines -/

namespace Text

/-- The lines of a text that are complete. -/
def completeLines (text : Text) : Text :=
  text.rdropWhile (· ≠ '\n')

/-- The line that a text ends within. -/
def lastLine (text : Text) : Text :=
  text.rtakeWhile (· ≠ '\n')

theorem completeLines_append_lastLine (text : Text) :
    completeLines text ++ lastLine text = text :=
  List.rdropWhile_append_rtakeWhile ..

theorem not_mem_lastLine (text : Text) : '\n' ∉ lastLine text := fun member => by
  simpa using List.mem_rtakeWhile_imp member

/-- Complete lines end with a line break, if there are any. -/
theorem getLast?_completeLines (text : Text) :
    completeLines text = [] ∨ (completeLines text).getLast? = some '\n' := by
  by_cases empty : completeLines text = []
  · exact .inl empty
  · have last := List.rdropWhile_last_not (· ≠ '\n') text empty
    rw [List.getLast?_eq_some_getLast empty]
    exact .inr (congrArg some (by simpa [completeLines] using last))

/-- Complete lines are lines by themselves. -/
theorem linesWithBreaks_append {before : Text}
    (complete : before = [] ∨ before.getLast? = some '\n') (after : Text) :
    linesWithBreaks (before ++ after) = linesWithBreaks before ++ linesWithBreaks after := by
  induction before with
  | nil => rfl
  | cons c rest inductionHypothesis =>
    have last : (c :: rest).getLast? = some '\n' := complete.resolve_left (by simp)
    cases rest with
    | nil =>
      obtain rfl : c = '\n' := by simpa using last
      rw [List.singleton_append, linesWithBreaks, if_pos rfl, linesWithBreaks, if_pos rfl]
      rfl
    | cons d others =>
      rw [List.getLast?_cons_cons] at last
      have later := inductionHypothesis (.inr last)
      have filled : linesWithBreaks (d :: others) ≠ [] := by
        rw [linesWithBreaks]
        split
        · simp
        · rw [keepInFirst_eq]
          simp
      rw [List.cons_append, linesWithBreaks, later, linesWithBreaks.eq_2 c]
      split
      · rfl
      · rw [keepInFirst_eq, keepInFirst_eq]
        obtain ⟨first, more, shape⟩ := List.exists_cons_of_ne_nil filled
        rw [shape]
        rfl

/-- A piece of a line stands in front of the line that goes on behind it. -/
theorem linesWithBreaks_piece {piece : Text} (single : '\n' ∉ piece) (nonempty : piece ≠ [])
    (after : Text) :
    linesWithBreaks (piece ++ after) =
      (piece ++ (linesWithBreaks after).headD []) :: (linesWithBreaks after).tail := by
  induction piece with
  | nil => exact absurd rfl nonempty
  | cons c rest inductionHypothesis =>
    rw [List.mem_cons, not_or] at single
    rw [List.cons_append, linesWithBreaks, if_neg (Ne.symm single.1), keepInFirst_eq]
    cases rest with
    | nil => rfl
    | cons d others =>
      rw [inductionHypothesis single.2 (by simp)]
      rfl

/-- A line with its break is a line by itself. -/
theorem linesWithBreaks_line {line : Text} (single : '\n' ∉ line) (after : Text) :
    linesWithBreaks (line ++ '\n' :: after) = (line ++ ['\n']) :: linesWithBreaks after := by
  cases line with
  | nil => rw [List.nil_append, linesWithBreaks, if_pos rfl, List.nil_append]
  | cons c rest =>
    rw [linesWithBreaks_piece single (by simp), linesWithBreaks, if_pos rfl]
    rfl

end Text

namespace Code

/-! ## Lines around a block -/

/-- What is left of a text when the line in which it starts is kept. -/
def keepFirstLine (text : Text) : Text :=
  (Text.linesWithBreaks text).headD [] ++
    (stripCommentLines none (Text.linesWithBreaks text).tail).flatten

/-- What is left before a block: complete lines lose their comments, and the line
in which the block starts is kept. -/
def keepLastLine (text : Text) : Text :=
  stripComments (Text.completeLines text) ++ Text.lastLine text

/-- Up to an awaited marker nothing is dropped, and then the rest of the line is
kept. -/
theorem stripCommentLines_awaiting {closing : Text} (single : '\n' ∉ closing) {text : Text}
    (nonempty : closing ≠ []) (unclosed : ¬ closing <:+: text) (after : Text) :
    (stripCommentLines (some closing) (Text.linesWithBreaks (text ++ (closing ++ after)))).flatten =
      text ++ (closing ++ keepFirstLine after) := by
  induction length : text.length using Nat.strong_induction_on generalizing text with
  | h size inductionHypothesis =>
    by_cases several : '\n' ∈ text
    · obtain ⟨line, others, rfl, alone⟩ := List.eq_append_cons_of_mem several
      have within : line ++ ['\n'] <:+: line ++ '\n' :: others := ⟨[], others, by simp⟩
      have later : others <:+: line ++ '\n' :: others := ⟨line ++ ['\n'], [], by simp⟩
      have shorter : others.length < size := by
        rw [← length, List.length_append, List.length_cons]
        omega
      have behind := inductionHypothesis others.length shorter
        (fun occurs => unclosed (occurs.trans later)) rfl
      have here : Text.contains closing (line ++ ['\n']) = false :=
        Text.contains_eq_false_iff.mpr fun occurs => unclosed (occurs.trans within)
      rw [List.append_assoc, List.cons_append, Text.linesWithBreaks_line alone, stripCommentLines,
        here]
      simp [behind]
    · have alone : '\n' ∉ text ++ closing := by simp [several, single]
      have here (first : Text) : Text.contains closing (text ++ closing ++ first) = true :=
        Text.contains_iff.mpr ⟨text, first, rfl⟩
      rw [← List.append_assoc, Text.linesWithBreaks_piece alone (by simp [nonempty]),
        stripCommentLines, here, if_pos rfl, List.flatten_cons, keepFirstLine]
      simp only [List.append_assoc]

/-- Lines in which no code block starts lose their comments one by one. -/
theorem stripCommentLines_append {lines : List Text}
    (unfenced : ∀ line ∈ lines, ∀ fence ∈ fences, ¬ fence.1 <:+: line) (others : List Text) :
    stripCommentLines none (lines ++ others) =
      stripCommentLines none lines ++ stripCommentLines none others := by
  induction lines with
  | nil => rfl
  | cons line further inductionHypothesis =>
    rw [List.forall_mem_cons] at unfenced
    rw [List.cons_append, stripCommentLines_unfenced unfenced.1,
      stripCommentLines_unfenced unfenced.1, inductionHypothesis unfenced.2, List.cons_append]

/-- The name of the environment for code. -/
abbrev verbatimName : Text :=
  "verbatim".toList

/-- A line in which a code block starts awaits its end. -/
theorem stripCommentLines_opening {line : Text} (opened : beginMarker verbatimName <:+: line)
    (others : List Text) :
    stripCommentLines none (line :: others) =
      stripCommentLines (some (endMarker verbatimName)) (line :: others) := by
  have first : fences = (beginMarker verbatimName, endMarker verbatimName) :: fences.tail := rfl
  rw [stripCommentLines.eq_3, first, List.find?_cons_of_pos, stripCommentLines]
  exact Text.contains_iff.mpr opened

/-- Around a code block whose end is not named before it comments are dropped as if
the block were not there, but not in the line in which it starts and in the line in
which it ends. -/
theorem stripComments_enclosed {before body : Text}
    (unfenced : ∀ fence ∈ fences, ¬ fence.1 <:+: before)
    (unnamed : ¬ endMarker verbatimName <:+: Text.lastLine before) (isSealed : IsSealed body)
    (after : Text) :
    stripComments (before ++ (enclosed verbatimName body ++ after)) =
      keepLastLine before ++ (enclosed verbatimName body ++ keepFirstLine after) := by
  have complete := Text.completeLines_append_lastLine before
  have lines := Text.getLast?_completeLines before
  have single := Text.not_mem_lastLine before
  rw [keepLastLine]
  generalize Text.completeLines before = above at *
  generalize Text.lastLine before = line at *
  obtain rfl := complete
  have unopened : ∀ line ∈ Text.linesWithBreaks above, ∀ fence ∈ fences, ¬ fence.1 <:+: line := by
    intro other listed fence known occurs
    have within : other <:+: above := by
      rw [← Text.flatten_linesWithBreaks above]
      exact List.infix_of_mem_flatten listed
    exact unfenced fence known ((occurs.trans within).trans (List.infix_append_left ..))
  have opened : '\n' ∉ line ++ beginMarker verbatimName := by
    rw [List.mem_append, not_or]
    exact ⟨single, by decide⟩
  have unclosed : ¬ endMarker verbatimName <:+: line ++ (beginMarker verbatimName ++ body) := by
    intro occurs
    have closing : Table.environmentClosing <+: endMarker verbatimName := ⟨_, rfl⟩
    rcases (isMarker_endMarker (by decide)).infix_append_marker (isMarker_beginMarker (by decide))
      (by decide) occurs with named | inside
    · exact unnamed named
    · exact isSealed.unclosed (closing.isInfix.trans inside)
  have awaited := stripCommentLines_awaiting (by decide : '\n' ∉ endMarker verbatimName)
    (by decide) unclosed after
  -- The line of the block starts with what stands before it and the opening marker.
  have inner : line ++ (enclosed verbatimName body ++ after) =
      line ++ beginMarker verbatimName ++ (body ++ (endMarker verbatimName ++ after)) := by
    simp only [enclosed, List.append_assoc]
  have kept : (stripCommentLines none (Text.linesWithBreaks
      (line ++ (enclosed verbatimName body ++ after)))).flatten =
        line ++ (enclosed verbatimName body ++ keepFirstLine after) := by
    have nonempty : line ++ beginMarker verbatimName ≠ [] :=
      List.append_ne_nil_of_right_ne_nil _ (beginMarker_ne_nil verbatimName)
    rw [inner, Text.linesWithBreaks_piece opened nonempty,
      stripCommentLines_opening ⟨line, _, rfl⟩, ← Text.linesWithBreaks_piece opened nonempty]
    simp only [List.append_assoc] at awaited ⊢
    rw [awaited]
    simp only [enclosed, List.append_assoc]
  rw [List.append_assoc, stripComments, Text.linesWithBreaks_append lines,
    stripCommentLines_append unopened, List.flatten_append, kept, stripComments,
    List.append_assoc]

end Code

/-! ## Tokens around a block -/

namespace Scan

section Replacing

variable {pattern replacement : Text} (nonempty : pattern ≠ [])

include nonempty

/-- A character that is not in a pattern divides a text into parts in which the
pattern is replaced by itself. -/
theorem replaceAll_append_cons {c : Char} (absent : c ∉ pattern) (before after : Text) :
    replaceAll pattern replacement (before ++ c :: after) =
      replaceAll pattern replacement before ++ c :: replaceAll pattern replacement after := by
  induction length : before.length using Nat.strong_induction_on generalizing before with
  | h size inductionHypothesis =>
    cases before with
    | nil =>
      have unstarted : ¬ pattern <+: c :: after := fun start => by
        obtain ⟨first, others, rfl⟩ := List.exists_cons_of_ne_nil nonempty
        exact absent ((List.cons_prefix_cons.mp start).1 ▸ List.mem_cons_self)
      exact replaceAll_cons (Text.dropFront?_eq_none_iff.mpr unstarted) replacement
    | cons d others =>
      by_cases start : pattern <+: d :: others
      · obtain ⟨rest, whole⟩ := start
        have shorter : rest.length < size := by
          have filled := List.length_pos_iff.mpr nonempty
          rw [← length, ← whole, List.length_append]
          omega
        rw [← whole, List.append_assoc, replaceAll_append nonempty, replaceAll_append nonempty,
          inductionHypothesis rest.length shorter rest rfl, List.append_assoc]
      · have beyond : ¬ pattern <+: d :: (others ++ c :: after) := fun reaches =>
          start (Text.prefix_of_prefix_append_cons absent reaches)
        rw [List.cons_append, replaceAll_cons (Text.dropFront?_eq_none_iff.mpr beyond),
          replaceAll_cons (Text.dropFront?_eq_none_iff.mpr start),
          inductionHypothesis others.length (by simp [← length]) others rfl]
        rfl

/-- A piece that shares no character with a pattern is kept. -/
theorem replaceAll_append_apart {piece : Text} (filled : piece ≠ [])
    (apart : Text.Apart piece pattern) (before after : Text) :
    replaceAll pattern replacement (before ++ (piece ++ after)) =
      replaceAll pattern replacement before ++
        (piece ++ replaceAll pattern replacement after) := by
  have front : ∀ piece, Text.Apart piece pattern →
      replaceAll pattern replacement (piece ++ after) =
        piece ++ replaceAll pattern replacement after := by
    intro piece apart
    induction piece with
    | nil => rfl
    | cons c others inductionHypothesis =>
      have divided : replaceAll pattern replacement ([] ++ c :: (others ++ after)) = _ :=
        replaceAll_append_cons nonempty (apart c List.mem_cons_self) [] (others ++ after)
      rw [inductionHypothesis fun d member => apart d (List.mem_cons_of_mem c member)] at divided
      exact divided
  obtain ⟨c, others, rfl⟩ := List.exists_cons_of_ne_nil filled
  rw [List.cons_append, replaceAll_append_cons nonempty (apart c List.mem_cons_self),
    front others fun d member => apart d (List.mem_cons_of_mem c member)]
  rfl

/-- Replacing a pattern changes nothing about what escapes the position after a
text, when neither the pattern nor the replacement ends with a backslash. -/
theorem advanceOver_replaceAll {cursor moved : Cursor} (escaped : cursor.escaped = moved.escaped)
    (ending : ∀ cursor : Cursor, (cursor.advanceOver pattern).escaped = false ∧
      (cursor.advanceOver replacement).escaped = false) (text : Text) :
    (cursor.advanceOver (replaceAll pattern replacement text)).escaped =
      (moved.advanceOver text).escaped := by
  induction length : text.length using Nat.strong_induction_on
    generalizing text cursor moved with
  | h size inductionHypothesis =>
    cases text with
    | nil => exact escaped
    | cons c others =>
      by_cases start : pattern <+: c :: others
      · obtain ⟨rest, whole⟩ := start
        have shorter : rest.length < size := by
          have filled := List.length_pos_iff.mpr nonempty
          rw [← length, ← whole, List.length_append]
          omega
        rw [← whole, replaceAll_append nonempty, Cursor.advanceOver, List.foldl_append,
          Cursor.advanceOver, List.foldl_append]
        exact inductionHypothesis rest.length shorter
          ((ending cursor).2.trans (ending moved).1.symm) rest rfl
      · rw [replaceAll_cons (Text.dropFront?_eq_none_iff.mpr start)]
        exact inductionHypothesis others.length (by simp [← length])
          (congrArg (escapesNext · c) escaped) others rfl

end Replacing

end Scan

namespace Fragment

/-- Breaking up tokens keeps the markers of an environment. -/
theorem neutralize_enclosed {name : Text}
    (apart : Text.Apart (beginMarker name) tokenOpening ∧ Text.Apart (endMarker name) tokenOpening)
    (before body after : Text) :
    neutralize (before ++ (enclosed name body ++ after)) =
      neutralize before ++ (enclosed name (neutralize body) ++ neutralize after) := by
  simp only [neutralize, enclosed, List.append_assoc]
  rw [replaceAll_append_apart tokenOpening_ne_nil (beginMarker_ne_nil name) apart.1,
    replaceAll_append_apart tokenOpening_ne_nil (endMarker_ne_nil name) apart.2]

/-- Breaking up tokens keeps a body sealed. -/
theorem isSealed_neutralize {body : Text} (isSealed : IsSealed body) :
    IsSealed (neutralize body) where
  unopened := by
    rw [neutralize, Text.infix_replaceAll_iff (by decide) (by decide) (by decide) (by decide)]
    exact isSealed.unopened
  unclosed := by
    rw [neutralize, Text.infix_replaceAll_iff (by decide) (by decide) (by decide) (by decide)]
    exact isSealed.unclosed

/-- Breaking up tokens escapes nothing. -/
theorem advanceOver_neutralize (cursor : Cursor) (text : Text) :
    (cursor.advanceOver (neutralize text)).escaped = (cursor.advanceOver text).escaped := by
  refine advanceOver_replaceAll tokenOpening_ne_nil rfl (fun cursor => ⟨?_, ?_⟩) text
  · exact Cursor.advanceOver_concat_escaped cursor "@@BLOC".toList (by decide : 'K' ≠ '\\')
  · exact Cursor.advanceOver_concat_escaped cursor ("@@".toList ++ wordJoiner :: "BLOC".toList)
      (by decide : 'K' ≠ '\\')

end Fragment

end LatexMarkdown
