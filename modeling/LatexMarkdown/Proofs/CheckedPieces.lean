import LatexMarkdown.Proofs.CheckedSearch
import LatexMarkdown.Proofs.InlineCode
import LatexMarkdown.Proofs.RelationRows
import LatexMarkdown.Proofs.TableJoining

/-!
# Checked cuts

A line is cut at its comment, the body of a table between its rows, and a row between its
cells. Walks over bytes make these cuts by slices, and commit no fault.
-/

namespace LatexMarkdown

open Checked Text

namespace Scan

/-- The offset behind a star, if one stands at an offset. -/
def behindStarAt (text : Text) (index : Nat) : Nat :=
  if byteAt? text index = some '*' then index + 1 else index

theorem exists_behindStarAt {text before suffix : Text} (split : text = before ++ suffix) :
    ∃ front, text = front ++ (dropFront? ['*'] suffix).getD suffix ∧
      behindStarAt text (utf8Length before) = utf8Length front := by
  obtain ⟨front, behindStar, reached⟩ := exists_behindStar split
    (decide (suffix.head? = some '*')) of_decide_eq_true
  refine ⟨front, (getD_dropFront?_star suffix).symm ▸ behindStar, ?_⟩
  rw [← reached, behindStarAt, split]
  simp only [byteAt?_eq_some_iff (by decide : '*'.toNat < 128), decide_eq_true_eq]

theorem getD_dropFront?_suffix (front text : Text) :
    (dropFront? front text).getD text <:+ text := by
  cases found : dropFront? front text with
  | none => exact List.suffix_refl text
  | some rest => exact dropFront?_suffix found

/-- What stands in front of a suffix ends where the suffix starts. -/
theorem utf8Length_append_take {text before suffix rest : Text} (split : text = before ++ suffix)
    (isSuffix : rest <:+ suffix) :
    utf8Length (before ++ suffix.take (suffix.length - rest.length)) = offsetOf text rest := by
  obtain ⟨piece, rfl⟩ := isSuffix
  rw [← List.append_assoc] at split
  rw [List.length_append, Nat.add_sub_cancel, List.take_left, offsetOf_append split]

end Scan

open Scan

/-! ## Comments -/

namespace Code

/-- Scan the inline code at an offset: the offset behind it. -/
def walkInlineCode (line : Text) (index : Nat) : Checked Nat := do
  let name ← sliceFrom line (index + 1)
  if startsWith "verb".toList name then
    match byteAt? line (behindStarAt line (index + 5)) with
    | none => failure
    | some delimiter =>
      if delimiter.toNat < 128 && !delimiter.isAlpha then do
        let inside ← sliceFrom line (behindStarAt line (index + 5) + 1)
        match splitFirst? [delimiter] inside with
        | none => failure
        | some (body, _) => pure (behindStarAt line (index + 5) + 1 + utf8Length body + 1)
      else failure
  else failure

theorem delimited?_suffix {rest inside : Text} {delimiter : Char}
    (found : delimited? ('\\' :: rest) = some (delimiter, inside)) : inside <:+ rest := by
  obtain ⟨star, -, spelled⟩ := delimited?_eq_some found
  have opening : inlineOpening = '\\' :: "verb".toList := rfl
  rw [opening, List.cons_append, List.cons.injEq, ← List.append_assoc] at spelled
  rw [spelled.2]
  exact (List.suffix_cons delimiter inside).trans (List.suffix_append _ _)

/-- Behind the delimiter that closes it, inline code ends. -/
theorem offsetOf_delimited {line front inside after : Text} {delimiter closer : Char}
    (split : line = front ++ delimiter :: inside) (ascii : delimiter.toNat < 128)
    (closing : inside.dropWhile (· ≠ delimiter) = closer :: after) :
    offsetOf line after =
      utf8Length front + 1 + utf8Length (inside.takeWhile (· ≠ delimiter)) + 1 := by
  have closes : closer = delimiter := by
    have unequal := List.head?_dropWhile_not (· ≠ delimiter) inside
    rw [closing] at unequal
    simpa using unequal
  have whole : inside.takeWhile (· ≠ delimiter) ++ closer :: after = inside := by
    rw [← closing, List.takeWhile_append_dropWhile]
  have behind : line =
      front ++ delimiter :: inside.takeWhile (· ≠ delimiter) ++ closer :: after := by
    rw [split, append_cons_append, whole]
  rw [offsetOf_cons behind (closes ▸ ascii), utf8Length_append, utf8Length, utf8Size_of_ascii ascii,
    ← Nat.add_assoc]

/-- Inline code is read up to the end of its width. -/
theorem walkInlineCode_eq {line before rest : Text} (split : line = before ++ '\\' :: rest) :
    walkInlineCode line (utf8Length before) =
      sound ((inlineWidth? ('\\' :: rest)).map fun width =>
        utf8Length (before ++ ('\\' :: rest).take width)) := by
  have named : dropFront? inlineOpening ('\\' :: rest) = dropFront? "verb".toList rest := rfl
  rw [walkInlineCode, sliceFrom_cons split (by decide), sound_some_bind, startsWith,
    inlineWidth?_eq, delimited?, named]
  cases found : dropFront? "verb".toList rest with
  | none => rfl
  | some after =>
    have opened : line = before ++ inlineOpening ++ after := by
      rw [split, dropFront?_eq_some_iff.mp found]
      simp [inlineOpening]
    have start : utf8Length (before ++ inlineOpening) = utf8Length before + 5 :=
      utf8Length_append _ _
    obtain ⟨front, behindStar, reached⟩ := exists_behindStarAt opened
    rw [start] at reached
    simp only [Option.isSome_some, if_true, reached, Option.bind_eq_bind, Option.bind_some]
    cases delimited : (dropFront? ['*'] after).getD after with
    | nil =>
      rw [delimited, List.append_nil] at behindStar
      rw [behindStar, byteAt?_end]
      rfl
    | cons delimiter inside =>
      rw [delimited] at behindStar
      by_cases ascii : delimiter.toNat < 128
      · have seen : byteAt? line (utf8Length front) = some delimiter := by
          rw [behindStar, byteAt?_ascii ascii]
        simp only [seen, Option.bind_some, ascii, decide_true, Bool.true_and,
          sliceFrom_cons behindStar ascii, sound_some_bind, splitFirst?_character]
        split
        next =>
          cases closing : inside.dropWhile (· ≠ delimiter) with
          | nil => rfl
          | cons closer others =>
            have read : delimited? ('\\' :: rest) = some (delimiter, inside) := by
              simp only [delimited?, named, found, Option.bind_eq_bind, Option.bind_some, delimited]
            have isSuffix : others <:+ '\\' :: rest :=
              calc others <:+ closer :: others := List.suffix_cons closer others
                _ <:+ inside := closing ▸ List.dropWhile_suffix _
                _ <:+ rest := delimited?_suffix read
                _ <:+ '\\' :: rest := List.suffix_cons '\\' rest
            simp only [Option.map_some, utf8Length_append_take split isSuffix,
              offsetOf_delimited behindStar ascii closing, pure_eq_sound]
        next => rfl
      · obtain ⟨byte, seen, high⟩ :=
          byteAt?_wide (Nat.le_of_not_lt ascii) front inside delimiter.utf8Size_pos
        rw [Nat.add_zero, ← behindStar] at seen
        have foreign : ¬ byte.toNat < 128 := Nat.not_lt_of_le high
        simp only [seen, Option.bind_some, decide_eq_false foreign, decide_eq_false ascii,
          Bool.false_and, Bool.false_eq_true, if_false]
        rfl

/-- A step of the search for a comment. -/
def commentStep (line : Text) (_ : Unit) (index : Nat) (byte : Char) : Checked (Move Unit Nat) :=
  if byte = '\\' then do
    match ← attempt (walkInlineCode line index) with
    | some stop => pure (.jump () stop)
    | none => pure (.jump () (index + 2))
  else if byte = '%' then pure (.stop index)
  else pure (.jump () (index + 1))

/-- The offset at which the comment of a line starts. -/
def walkComment (line : Text) : Checked Nat :=
  walk line (commentStep line) (fun _ => failure) () 0

/-- What stands before the comment of a line. -/
def walkBeforeComment (line : Text) : Checked Text := do
  match ← attempt (walkComment line) with
  | some start => slice line 0 start
  | none => pure line

/-- Inline code in a line is not empty, and it is kept. -/
theorem beforeComment_of_width {rest : Text} {width : Nat}
    (inline : inlineWidth? ('\\' :: rest) = some width) :
    ∃ matched after, '\\' :: rest = matched ++ after ∧ matched ≠ [] ∧
      ('\\' :: rest).take width = matched ∧
      beforeComment 0 ('\\' :: rest) = matched ++ beforeComment 0 after := by
  have read := inline
  rw [inlineWidth?_eq] at read
  obtain ⟨⟨delimiter, inside⟩, found, closed⟩ := Option.bind_eq_some_iff.mp read
  simp only at closed
  split at closed
  · split at closed
    · cases closed
    next closer after closing =>
      have isSuffix : after <:+ rest :=
        calc after <:+ closer :: after := List.suffix_cons closer after
          _ <:+ inside := closing ▸ List.dropWhile_suffix _
          _ <:+ rest := delimited?_suffix found
      obtain ⟨piece, rfl⟩ := isSuffix
      have wide : width = piece.length + 1 := by
        have counted := Option.some.inj closed
        rw [List.length_cons, List.length_append] at counted
        omega
      refine ⟨'\\' :: piece, after, rfl, List.cons_ne_nil _ _, ?_, ?_⟩
      · rw [wide, List.take_succ_cons, List.take_left]
      · rw [beforeComment, if_pos rfl, inline, Option.getD_some, wide, Nat.add_sub_cancel,
          Document.Alternation.beforeComment_covered, List.cons_append]
  · cases closed

/-- A walk over a line finds where the part before the comment ends, unless the whole line is
this part. -/
theorem exists_comment {line : Text} (before suffix : Text) (split : line = before ++ suffix) :
    ∃ comment, suffix = beforeComment 0 suffix ++ comment ∧
      walk line (commentStep line) (fun _ => failure) () (utf8Length before) =
        sound (if comment = [] then none
          else some (utf8Length (before ++ beforeComment 0 suffix))) := by
  have calm : IsCalm (commentStep line) := fun _ _ _ wide => by
    rw [commentStep, if_neg (ne_of_wide wide (by decide)), if_neg (ne_of_wide wide (by decide))]
  induction length : suffix.length using Nat.strong_induction_on generalizing before suffix with
  | _ length inductionHypothesis =>
  subst length
  -- What is passed over is kept, and the comment is looked for behind it.
  have goesOn (matched : Text) {after : Text} (whole : suffix = matched ++ after)
      (filled : matched ≠ []) (kept : beforeComment 0 suffix = matched ++ beforeComment 0 after)
      (passed : walk line (commentStep line) (fun _ => failure) () (utf8Length before) =
        walk line (commentStep line) (fun _ => failure) () (utf8Length (before ++ matched))) :
      ∃ comment, suffix = beforeComment 0 suffix ++ comment ∧
        walk line (commentStep line) (fun _ => failure) () (utf8Length before) =
          sound (if comment = [] then none
            else some (utf8Length (before ++ beforeComment 0 suffix))) := by
    have shorter : after.length < suffix.length := by
      rw [whole, List.length_append]
      exact Nat.lt_add_of_pos_left (List.length_pos_of_ne_nil filled)
    have behind : line = before ++ matched ++ after := by rw [split, whole, List.append_assoc]
    obtain ⟨comment, rest, found⟩ := inductionHypothesis _ shorter _ _ behind rfl
    refine ⟨comment, ?_, ?_⟩
    · rw [kept, List.append_assoc, ← rest, whole]
    · rw [passed, found, kept, List.append_assoc]
  match suffix with
  | [] => exact ⟨[], rfl, walk_end split⟩
  | c :: rest =>
    by_cases backslash : c = '\\'
    · subst backslash
      have code := walkInlineCode_eq split
      cases inline : inlineWidth? ('\\' :: rest) with
      | some width =>
        obtain ⟨matched, after, whole, filled, taken, kept⟩ := beforeComment_of_width inline
        refine goesOn matched whole filled kept (walk_jump split (by decide) ?_ ?_)
        · rw [commentStep, if_pos rfl, code, inline, Option.map_some, taken]
          rfl
        · exact utf8Length_lt_append before filled
      | none =>
        have steps : commentStep line () (utf8Length before) '\\' =
            sound (some (.jump () (utf8Length before + 2))) := by
          rw [commentStep, if_pos rfl, code, inline]
          rfl
        match rest with
        | [] =>
          refine ⟨[], ?_, walk_beyond split (by decide) steps⟩
          rw [beforeComment, if_pos rfl, inline]
          rfl
        | d :: others =>
          refine goesOn ['\\', d] rfl (List.cons_ne_nil _ _) ?_
            (walk_over calm split (by decide) steps)
          rw [beforeComment, if_pos rfl, inline]
          rfl
    by_cases percent : c = '%'
    · subst percent
      refine ⟨'%' :: rest, ?_, ?_⟩
      · rw [beforeComment, if_neg backslash, if_pos rfl, List.nil_append]
      · rw [walk_stop (some (utf8Length before)) split (by decide) rfl, beforeComment,
          if_neg backslash, if_pos rfl, if_neg (List.cons_ne_nil _ _), List.append_nil]
    · refine goesOn [c] rfl (List.cons_ne_nil _ _) ?_
        (walk_char calm split ?_)
      · rw [beforeComment, if_neg backslash, if_neg percent, List.singleton_append]
      · rw [commentStep, if_neg backslash, if_neg percent, pure_eq_sound]

theorem walkBeforeComment_eq (line : Text) :
    walkBeforeComment line = sound (some (beforeComment 0 line)) := by
  obtain ⟨comment, whole, found⟩ := exists_comment [] line rfl
  change walkComment line = _ at found
  rw [walkBeforeComment, found, attempt_sound, sound_some_bind]
  by_cases empty : comment = []
  · rw [empty, List.append_nil] at whole
    rw [if_pos empty, ← whole, pure_eq_sound]
  · have split : line = [] ++ beforeComment 0 line ++ comment := whole
    rw [if_neg empty]
    exact slice_of_split split

end Code

namespace Table

/-! ## Rows and cells -/

/-- What a split has found: the depth, the finished pieces, and the offset at which the piece
starts that is not finished. -/
structure Splitting where
  depth : Depth
  pieces : List Text
  start : Nat

namespace Splitting

/-- Finish a piece at an index and start the next one. -/
def cut (text : Text) (splitting : Splitting) (index next : Nat) : Checked Splitting := do
  let piece ← slice text splitting.start index
  pure ⟨splitting.depth, splitting.pieces ++ [piece], next⟩

/-- Finish the last piece. -/
def finish (text : Text) (splitting : Splitting) : Checked (List Text) := do
  let piece ← sliceFrom text (min splitting.start (utf8Length text))
  pure (splitting.pieces ++ [piece])

theorem cut_eq {text front kept behind : Text} (split : text = front ++ kept ++ behind)
    (depth : Depth) (pieces : List Text) (next : Nat) :
    cut text ⟨depth, pieces, utf8Length front⟩ (utf8Length (front ++ kept)) next =
      sound (some ⟨depth, pieces ++ [kept], next⟩) := by
  rw [cut, slice_of_split split]
  rfl

theorem finish_eq {text front kept : Text} (split : text = front ++ kept) (depth : Depth)
    (pieces : List Text) :
    finish text ⟨depth, pieces, utf8Length front⟩ = sound (some (pieces ++ [kept])) := by
  have within : utf8Length front ≤ utf8Length text := by
    rw [split]
    exact utf8Length_le_append front kept
  rw [finish, Nat.min_eq_left within, sliceFrom_of_split split]
  rfl

end Splitting

section Divide

/-- A step does at a character what divides a text there: it passes over the character, it
passes over an escape, or it finishes a piece. -/
inductive Divides (divided : Depth → Text → List Text)
    (step : Splitting → Nat → Char → Checked (Move Splitting (List Text))) (front kept : Text)
    (c : Char) (rest : Text) (depth : Depth) (pieces : List Text) : Prop
  | passes (next : Depth) (same : 128 ≤ c.toNat → next = depth)
      (keeps : divided depth (c :: rest) = keepInFirst c (divided next rest))
      (steps : step ⟨depth, pieces, utf8Length front⟩ (utf8Length (front ++ kept)) c =
        sound (some (.jump ⟨next, pieces, utf8Length front⟩ (utf8Length (front ++ kept) + 1))))
  | escapes (next : Depth) (ascii : c.toNat < 128)
      (last : rest = [] → divided depth (c :: rest) = [[c]])
      (keeps : ∀ d others, rest = d :: others →
        divided depth (c :: rest) = keepInFirst c (keepInFirst d (divided next others)))
      (steps : step ⟨depth, pieces, utf8Length front⟩ (utf8Length (front ++ kept)) c =
        sound (some (.jump ⟨next, pieces, utf8Length front⟩ (utf8Length (front ++ kept) + 2))))
  | cuts (ascii : c.toNat < 128) (matched after : Text) (whole : c :: rest = matched ++ after)
      (filled : matched ≠ []) (starts : divided depth (c :: rest) = [] :: divided depth after)
      (steps : step ⟨depth, pieces, utf8Length front⟩ (utf8Length (front ++ kept)) c =
        sound (some (.jump ⟨depth, pieces ++ [kept], utf8Length (front ++ kept ++ matched)⟩
          (utf8Length (front ++ kept ++ matched)))))

/-- A walk whose steps divide a text finds its pieces. -/
theorem walk_divides {divided : Depth → Text → List Text}
    {step : Splitting → Nat → Char → Checked (Move Splitting (List Text))} {text : Text}
    (calm : IsCalm step) (ends : ∀ depth, divided depth [] = [[]])
    (divides : ∀ front kept c rest depth pieces, text = front ++ kept ++ c :: rest →
      Divides divided step front kept c rest depth pieces)
    (front kept : Text) {suffix : Text} (split : text = front ++ kept ++ suffix) (depth : Depth)
    (pieces : List Text) :
    walk text step (Splitting.finish text) ⟨depth, pieces, utf8Length front⟩
        (utf8Length (front ++ kept)) =
      sound (some (pieces ++ kept.foldr keepInFirst (divided depth suffix))) := by
  induction length : suffix.length using Nat.strong_induction_on
    generalizing front kept suffix depth pieces with
  | _ length inductionHypothesis =>
  subst length
  match suffix with
  | [] =>
    rw [walk_end split, Splitting.finish_eq (split.trans (List.append_nil _)), ends,
      Math.foldr_keepInFirst, List.append_nil]
  | c :: rest =>
    have further : text = front ++ (kept ++ [c]) ++ rest := by rw [split]; simp
    cases divides front kept c rest depth pieces split with
    | passes next same keeps steps =>
      have passed : walk text step (Splitting.finish text) ⟨depth, pieces, utf8Length front⟩
          (utf8Length (front ++ kept)) = walk text step (Splitting.finish text)
            ⟨next, pieces, utf8Length front⟩ (utf8Length (front ++ kept ++ [c])) := by
        by_cases ascii : c.toNat < 128
        · exact walk_next split ascii steps
        · rw [same (Nat.le_of_not_lt ascii)]
          exact walk_pass calm split fun narrow => absurd narrow ascii
      rw [passed, List.append_assoc, inductionHypothesis _ (Nat.lt_succ_self _) _ _ further next
        pieces rfl, keeps, List.foldr_append, List.foldr_cons, List.foldr_nil]
    | escapes next ascii last keeps steps =>
      match rest with
      | [] =>
        rw [List.append_nil] at further
        rw [walk_beyond split ascii steps, Splitting.finish_eq further, last rfl,
          Math.foldr_keepInFirst]
      | d :: others =>
        have behind : text = front ++ (kept ++ [c, d]) ++ others := by rw [split]; simp
        have shorter : others.length < (c :: d :: others).length :=
          Nat.lt_add_of_pos_right (by decide : 0 < 2)
        rw [walk_over calm split ascii steps, List.append_assoc,
          inductionHypothesis _ shorter _ _ behind next pieces rfl, keeps d others rfl,
          List.foldr_append, List.foldr_cons, List.foldr_cons, List.foldr_nil]
    | cuts ascii matched after whole filled starts steps =>
      have behind : text = front ++ kept ++ matched ++ [] ++ after := by
        rw [split, whole]
        simp
      have moves := utf8Length_lt_append (front ++ kept) filled
      have shorter : after.length < (c :: rest).length := by
        have wide := List.length_pos_of_ne_nil filled
        rw [whole, List.length_append]
        omega
      have later := inductionHypothesis _ shorter _ _ behind depth (pieces ++ [kept]) rfl
      rw [List.append_nil] at later
      rw [walk_jump split ascii steps moves, later, starts, Math.foldr_keepInFirst, List.append_nil,
        List.append_assoc, List.singleton_append, List.foldr_nil]

end Divide

theorem afterBrace_of_wide {c : Char} (wide : 128 ≤ c.toNat) (depth : Depth) :
    depth.afterBrace c = depth := by
  rw [Depth.afterBrace, if_neg (ne_of_wide wide (by decide)), if_neg (ne_of_wide wide (by decide))]

/-- A step of the split of a row. -/
def cellStep (row : Text) (splitting : Splitting) (index : Nat) (byte : Char) :
    Checked (Move Splitting (List Text)) :=
  if byte = '\\' then do
    let suffix ← sliceFrom row index
    pure (.jump { splitting with depth := splitting.depth.afterCommand suffix } (index + 2))
  else if byte = '&' && splitting.depth.isTop then do
    let splitting ← splitting.cut row index (index + 1)
    pure (.jump splitting (index + 1))
  else pure (.jump { splitting with depth := splitting.depth.afterBrace byte } (index + 1))

/-- Walk over a row and split it into cells. -/
def walkCells (row : Text) : Checked (List Text) :=
  walk row (cellStep row) (Splitting.finish row) ⟨.top, [], 0⟩ 0

theorem dividesCells {row front kept rest : Text} {c : Char}
    (split : row = front ++ kept ++ c :: rest) (depth : Depth) (pieces : List Text) :
    Divides (cellsFrom · false ·) (cellStep row) front kept c rest depth pieces := by
  by_cases backslash : c = '\\'
  · subst backslash
    refine .escapes (depth.afterCommand ('\\' :: rest)) (by decide) ?_ ?_ ?_
    · rintro rfl
      rfl
    · rintro d others rfl
      rw [cellsFrom, if_pos rfl, cellsFrom]
    · rw [cellStep, if_pos rfl, sliceFrom_of_split split]
      rfl
  by_cases separates : (decide (c = '&') && depth.isTop) = true
  · obtain rfl : c = '&' := of_decide_eq_true (Bool.and_eq_true_iff.mp separates).1
    refine .cuts (by decide) ['&'] _ rfl (List.cons_ne_nil _ _) ?_ ?_
    · rw [cellsFrom, if_neg backslash, if_pos separates]
    · rw [cellStep, if_neg backslash, if_pos separates, Splitting.cut_eq split,
        utf8Length_concat _ '&']
      rfl
  · refine .passes (depth.afterBrace c) (fun wide => afterBrace_of_wide wide depth) ?_ ?_
    · rw [cellsFrom, if_neg backslash, if_neg separates]
    · rw [cellStep, if_neg backslash, if_neg separates, pure_eq_sound]

theorem walkCells_eq (row : Text) : walkCells row = sound (some (splitCells row)) := by
  have calm : IsCalm (cellStep row) := fun splitting index byte wide => by
    have separates : ¬ (decide (byte = '&') && splitting.depth.isTop) = true := by
      rw [decide_eq_false (ne_of_wide wide (by decide)), Bool.false_and]
      exact Bool.false_ne_true
    rw [cellStep, if_neg (ne_of_wide wide (by decide)), if_neg separates, afterBrace_of_wide wide]
  exact walk_divides calm (fun _ => rfl)
    (fun _ _ _ _ depth pieces split => dividesCells split depth pieces) [] [] rfl Depth.top []

/-- Scan the row break at an offset: the offset behind it. -/
def walkRowBreak (body : Text) (index : Nat) : Checked Nat := do
  let suffix ← sliceFrom body index
  if startsWith "\\\\".toList suffix then do
    let stop := behindStarAt body (index + 2)
    match ← attempt (walkBracketed body (skipGapAt body stop)) with
    | some (_, behind) => pure behind
    | none => pure stop
  else do
    let name ← sliceFrom body (index + 1)
    if startsWith "tabularnewline".toList name then pure (index + 15) else failure

/-- Whether a text starts with the mark of an environment. -/
def startsWithMark (text : Text) : Bool :=
  startsWith ("\\begin".toList ++ ['{']) text || startsWith ("\\end".toList ++ ['{']) text

/-- A step of the split of a body. -/
def rowStep (body : Text) (splitting : Splitting) (index : Nat) (byte : Char) :
    Checked (Move Splitting (List Text)) :=
  if byte = '\\' then do
    let suffix ← sliceFrom body index
    let stop ← if splitting.depth.isTop && !startsWithMark suffix then
        attempt (walkRowBreak body index)
      else pure none
    match stop with
    | some stop => do
      let splitting ← splitting.cut body index stop
      pure (.jump splitting stop)
    | none =>
      pure (.jump { splitting with depth := splitting.depth.afterCommand suffix } (index + 2))
  else pure (.jump { splitting with depth := splitting.depth.afterBrace byte } (index + 1))

/-- Walk over the body of a table and split it into rows. -/
def walkRows (body : Text) : Checked (List Text) :=
  walk body (rowStep body) (Splitting.finish body) ⟨.top, [], 0⟩ 0

theorem walkRowBreak_eq {body before rest : Text} (split : body = before ++ '\\' :: rest) :
    walkRowBreak body (utf8Length before) =
      sound ((afterRowBreak? ('\\' :: rest)).map (offsetOf body)) := by
  rw [walkRowBreak, sliceFrom_of_split split, sound_some_bind, startsWith, afterRowBreak?]
  cases found : dropFront? "\\\\".toList ('\\' :: rest) with
  | some after =>
    have opened : body = before ++ "\\\\".toList ++ after := by
      rw [split, dropFront?_eq_some_iff.mp found, List.append_assoc]
    have start : utf8Length (before ++ "\\\\".toList) = utf8Length before + 2 :=
      utf8Length_append _ _
    obtain ⟨front, behindStar, star⟩ := exists_behindStarAt opened
    obtain ⟨last, behindGap, gap⟩ := exists_skipGapAt behindStar
    rw [start] at star
    simp only [Option.isSome_some, if_true, star, gap, walkBracketed_eq behindGap, located,
      attempt_sound, sound_some_bind]
    cases readBracketed (skipGap ((dropFront? ['*'] after).getD after)) with
    | none =>
      simp only [Option.map_none, Option.map_some, offsetOf_append behindStar, pure_eq_sound]
    | some pair => rfl
  | none =>
    have named : dropFront? "\\tabularnewline".toList ('\\' :: rest) =
        dropFront? "tabularnewline".toList rest := rfl
    simp only [Option.isSome_none, Bool.false_eq_true, if_false, sliceFrom_cons split (by decide),
      sound_some_bind]
    rw [startsWith, named]
    cases command : dropFront? "tabularnewline".toList rest with
    | none => rfl
    | some after =>
      have behind : body = before ++ "\\tabularnewline".toList ++ after := by
        rw [split, dropFront?_eq_some_iff.mp command]
        simp
      have stop : utf8Length (before ++ "\\tabularnewline".toList) = utf8Length before + 15 :=
        utf8Length_append _ _
      simp only [Option.isSome_some, if_true, Option.map_some, offsetOf_append behind, stop,
        pure_eq_sound]

/-- The mark of an environment is no row break. -/
theorem afterRowBreak?_of_mark {text : Text} (mark : startsWithMark text = true) :
    afterRowBreak? text = none := by
  rw [startsWithMark, Bool.or_eq_true, startsWith_iff, startsWith_iff] at mark
  rw [afterRowBreak?_eq_none_iff]
  rcases mark with ⟨rest, rfl⟩ | ⟨rest, rfl⟩ <;>
    exact ⟨by simp [List.cons_prefix_cons], by simp [List.cons_prefix_cons]⟩

theorem afterRowBreak?_suffix {rest after : Text}
    (broken : afterRowBreak? ('\\' :: rest) = some after) : after <:+ rest := by
  rw [afterRowBreak?] at broken
  cases found : dropFront? "\\\\".toList ('\\' :: rest) with
  | none =>
    rw [found] at broken
    have command : dropFront? "tabularnewline".toList rest = some after := broken
    exact dropFront?_suffix command
  | some behind =>
    have second : dropFront? ['\\'] rest = some behind := found
    have broke := dropFront?_suffix second
    have starred := (getD_dropFront?_suffix ['*'] behind).trans broke
    simp only [found] at broken
    split at broken
    next inner after read =>
      obtain rfl := Option.some.inj broken
      exact (readBracketed_suffix read).trans ((skipGap_suffix _).trans starred)
    next =>
      obtain rfl := Option.some.inj broken
      exact starred

theorem rowsFrom_covered (depth : Depth) (covered rest : Text) :
    rowsFrom depth false covered.length (covered ++ rest) = rowsFrom depth false 0 rest := by
  induction covered with
  | nil => rfl
  | cons c others inductionHypothesis => exact inductionHypothesis

theorem dividesRows {body front kept rest : Text} {c : Char}
    (split : body = front ++ kept ++ c :: rest) (depth : Depth) (pieces : List Text) :
    Divides (rowsFrom · false 0 ·) (rowStep body) front kept c rest depth pieces := by
  by_cases backslash : c = '\\'
  · subst backslash
    have steps : rowStep body ⟨depth, pieces, utf8Length front⟩ (utf8Length (front ++ kept)) '\\' =
        (if depth.isTop then afterRowBreak? ('\\' :: rest) else none).elim
          (sound (some (.jump ⟨depth.afterCommand ('\\' :: rest), pieces, utf8Length front⟩
            (utf8Length (front ++ kept) + 2))))
          fun after => sound (some (.jump ⟨depth, pieces ++ [kept], offsetOf body after⟩
            (offsetOf body after))) := by
      rw [rowStep, if_pos rfl, sliceFrom_of_split split, sound_some_bind, walkRowBreak_eq split]
      cases depth.isTop with
      | false => rfl
      | true =>
        cases mark : startsWithMark ('\\' :: rest) with
        | true =>
          rw [afterRowBreak?_of_mark mark]
          rfl
        | false =>
          cases broken : afterRowBreak? ('\\' :: rest) with
          | none => rfl
          | some after =>
            simp only [Bool.not_false, Bool.and_self, if_true, Option.map_some, attempt_sound,
              sound_some_bind, Splitting.cut_eq split, pure_eq_sound, Option.elim_some]
    cases broken : if depth.isTop then afterRowBreak? ('\\' :: rest) else none with
    | some after =>
      have read : afterRowBreak? ('\\' :: rest) = some after := by
        split at broken
        · exact broken
        · cases broken
      obtain ⟨covered, rfl⟩ := afterRowBreak?_suffix read
      have behind : body = front ++ kept ++ '\\' :: covered ++ after := by
        rw [split, append_cons_append]
      simp only [broken, Option.elim_some, offsetOf_append behind] at steps
      refine .cuts (by decide) ('\\' :: covered) _ rfl (List.cons_ne_nil _ _) ?_ steps
      have width : (covered ++ after).length - after.length = covered.length := by simp
      rw [rowsFrom, if_pos rfl, broken]
      simp only [width, rowsFrom_covered]
    | none =>
      rw [broken, Option.elim_none] at steps
      refine .escapes (depth.afterCommand ('\\' :: rest)) (by decide) ?_ ?_ steps
      · rintro rfl
        rw [rowsFrom, if_pos rfl, broken]
        rfl
      · rintro d others rfl
        rw [rowsFrom, if_pos rfl, broken]
        rfl
  · refine .passes (depth.afterBrace c) (fun wide => afterBrace_of_wide wide depth) ?_ ?_
    · rw [rowsFrom, if_neg backslash]
    · rw [rowStep, if_neg backslash, pure_eq_sound]

theorem walkRows_eq (body : Text) : walkRows body = sound (some (splitRows body)) := by
  have calm : IsCalm (rowStep body) := fun splitting index byte wide => by
    rw [rowStep, if_neg (ne_of_wide wide (by decide)), afterBrace_of_wide wide]
  exact walk_divides calm (fun _ => rfl)
    (fun _ _ _ _ depth pieces split => dividesRows split depth pieces) [] [] rfl Depth.top []

end Table

end LatexMarkdown
