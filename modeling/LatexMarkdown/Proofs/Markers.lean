import LatexMarkdown.Proofs.Editing

/-!
# Passing over the markers of an environment

A search for an environment passes over each marker as a whole, and an opening marker into
which the next closing one reaches does not count. The markers of a name without a backslash
start with their only backslash. So none of them starts inside another one, and the search
can be told position by position.
-/

namespace LatexMarkdown.Scan

/-! ## Any markers -/

/-- A pattern starts nowhere in a front of a text. -/
def Silent (pattern front rest : Text) : Prop :=
  ∀ suffix, suffix <:+ front → suffix ≠ [] → ¬ pattern <+: suffix ++ rest

section Closing

variable {opening closing pattern front piece rest : Text}

theorem Silent.tail {c : Char} (silent : Silent pattern (c :: front) rest) :
    Silent pattern front rest :=
  fun suffix within => silent suffix (within.trans (List.suffix_cons c front))

theorem startsWithin_iff_silent :
    startsWithin pattern front.length (front ++ rest) = false ↔ Silent pattern front rest := by
  induction front with
  | nil =>
    have silent : Silent pattern [] rest := fun suffix within filled =>
      absurd (List.suffix_nil.mp within) filled
    exact iff_of_true (by simp [startsWithin]) silent
  | cons c others inductionHypothesis =>
    rw [List.length_cons, List.cons_append, startsWithin, Bool.or_eq_false_iff,
      inductionHypothesis, Bool.eq_false_iff, ne_eq, Text.startsWith_iff, ← List.cons_append]
    constructor
    · rintro ⟨here, later⟩ suffix within filled
      rcases List.suffix_cons_iff.mp within with rfl | inside
      · exact here
      · exact later suffix inside filled
    · exact fun silent => ⟨silent _ (List.suffix_refl _) (List.cons_ne_nil c others), silent.tail⟩

/-- What belongs to a marker is passed over. -/
theorem splitAtClosing_covered (depth : Nat) (piece rest : Text) :
    splitAtClosing opening closing depth piece.length (piece ++ rest) =
      (splitAtClosing opening closing depth 0 rest).map
        fun (body, after) => (piece ++ body, after) := by
  induction piece with
  | nil => simp
  | cons c others inductionHypothesis =>
    rw [List.length_cons, List.cons_append, splitAtClosing, inductionHypothesis]
    cases splitAtClosing opening closing depth 0 rest <;> rfl

/-- The search for the closing marker passes over a piece of text in which it does not start,
and in which no opening marker counts. -/
theorem splitAtClosing_uncounted (unclosed : Silent closing piece rest)
    (uncounted : ∀ suffix, suffix <:+ piece → suffix ≠ [] → opening <+: suffix ++ rest →
      startsWithin closing opening.length (suffix ++ rest) = true) (depth : Nat) :
    splitAtClosing opening closing depth 0 (piece ++ rest) =
      (splitAtClosing opening closing depth 0 rest).map
        fun (body, after) => (piece ++ body, after) := by
  induction piece with
  | nil => simp
  | cons c others inductionHypothesis =>
    have here := unclosed (c :: others) (List.suffix_refl _) (List.cons_ne_nil c others)
    have passed : (Text.startsWith opening (c :: (others ++ rest)) &&
        !startsWithin closing opening.length (c :: (others ++ rest))) = false := by
      cases starts : Text.startsWith opening (c :: (others ++ rest)) with
      | false => rfl
      | true =>
        have reached := uncounted (c :: others) (List.suffix_refl _) (List.cons_ne_nil c others)
          (Text.startsWith_iff.mp starts)
        rw [List.cons_append] at reached
        rw [reached]
        rfl
    rw [List.cons_append] at here ⊢
    rw [splitAtClosing, Text.dropFront?_eq_none_iff.mpr here]
    simp only [passed, Bool.false_eq_true, if_false]
    rw [inductionHypothesis unclosed.tail fun suffix within =>
      uncounted suffix (within.trans (List.suffix_cons c others))]
    cases splitAtClosing opening closing depth 0 rest <;> rfl

/-- The search for the closing marker passes over a piece of text in which
neither marker starts. -/
theorem splitAtClosing_pass
    (silent : ∀ suffix, suffix <:+ piece → suffix ≠ [] →
      ¬ opening <+: suffix ++ rest ∧ ¬ closing <+: suffix ++ rest) (depth : Nat) :
    splitAtClosing opening closing depth 0 (piece ++ rest) =
      (splitAtClosing opening closing depth 0 rest).map
        fun (body, after) => (piece ++ body, after) :=
  splitAtClosing_uncounted (fun suffix within filled => (silent suffix within filled).2)
    (fun suffix within filled starts => absurd starts (silent suffix within filled).1) depth

/-- An opening marker leads one level deeper if no closing one starts in it. -/
theorem splitAtClosing_opening (filled : opening ≠ []) (unclosed : Silent closing opening rest)
    (depth : Nat) :
    splitAtClosing opening closing depth 0 (opening ++ rest) =
      (splitAtClosing opening closing (depth + 1) 0 rest).map
        fun (body, after) => (opening ++ body, after) := by
  have here := Text.dropFront?_eq_none_iff.mpr (unclosed opening (List.suffix_refl _) filled)
  have counted : (Text.startsWith opening (opening ++ rest) &&
      !startsWithin closing opening.length (opening ++ rest)) = true := by
    rw [startsWithin_iff_silent.mpr unclosed, Text.startsWith_iff.mpr (List.prefix_append _ _)]
    rfl
  obtain ⟨c, word, rfl⟩ := List.exists_cons_of_ne_nil filled
  rw [List.cons_append] at here counted ⊢
  rw [splitAtClosing, here]
  simp only [counted, if_true]
  rw [List.length_cons, Nat.add_sub_cancel, splitAtClosing_covered]
  cases splitAtClosing (c :: word) closing (depth + 1) 0 rest <;> rfl

/-- A closing marker leads one level back. -/
theorem splitAtClosing_closing (filled : closing ≠ []) (depth : Nat) (rest : Text) :
    splitAtClosing opening closing (depth + 1) 0 (closing ++ rest) =
      (splitAtClosing opening closing depth 0 rest).map
        fun (body, after) => (closing ++ body, after) := by
  have here := Text.dropFront?_append closing rest
  obtain ⟨c, word, rfl⟩ := List.exists_cons_of_ne_nil filled
  rw [List.cons_append] at here ⊢
  rw [splitAtClosing, here]
  simp only [List.length_cons, Nat.add_sub_cancel, splitAtClosing_covered]
  cases splitAtClosing opening (c :: word) depth 0 rest <;> rfl

/-- On its own level a closing marker ends the search. -/
theorem splitAtClosing_ends (filled : closing ≠ []) (rest : Text) :
    splitAtClosing opening closing 0 0 (closing ++ rest) = some ([], rest) := by
  have here := Text.dropFront?_append closing rest
  obtain ⟨c, word, rfl⟩ := List.exists_cons_of_ne_nil filled
  rw [List.cons_append] at here ⊢
  rw [splitAtClosing, here]

end Closing

/-! ## Markers with a single backslash -/

/-- A text whose only backslash starts it. -/
def IsMarker (marker : Text) : Prop :=
  ∃ word, marker = '\\' :: word ∧ '\\' ∉ word

theorem isMarker_beginMarker {name : Text} (bare : '\\' ∉ name) : IsMarker (beginMarker name) :=
  ⟨"begin".toList ++ '{' :: name ++ ['}'], rfl, by simp [bare]⟩

theorem isMarker_endMarker {name : Text} (bare : '\\' ∉ name) : IsMarker (endMarker name) :=
  ⟨"end".toList ++ '{' :: name ++ ['}'], rfl, by simp [bare]⟩

/-- A marker that starts before a backslash also ends before it. -/
theorem IsMarker.prefix_append_iff {marker before : Text} (isMarker : IsMarker marker)
    (nonempty : before ≠ []) (after : Text) :
    marker <+: before ++ '\\' :: after ↔ marker <+: before := by
  obtain ⟨word, rfl, plain⟩ := isMarker
  obtain ⟨c, others, rfl⟩ := List.exists_cons_of_ne_nil nonempty
  rw [List.cons_append, List.cons_prefix_cons, List.cons_prefix_cons]
  refine and_congr_right fun _ => ⟨Text.prefix_of_prefix_append_cons plain, fun start => ?_⟩
  exact start.trans (List.prefix_append _ _)

/-- One marker does not start inside another. -/
theorem IsMarker.not_prefix_inside {marker word : Text} (isMarker : IsMarker marker)
    (plain : '\\' ∉ word) (nonempty : word ≠ []) (after : Text) : ¬ marker <+: word ++ after := by
  obtain ⟨name, rfl, -⟩ := isMarker
  obtain ⟨c, others, rfl⟩ := List.exists_cons_of_ne_nil nonempty
  rw [List.mem_cons, not_or] at plain
  rw [List.cons_append, List.cons_prefix_cons]
  exact fun start => plain.1 start.1

/-- One marker starts nowhere behind the backslash of another. -/
theorem IsMarker.silent {marker word : Text} (isMarker : IsMarker marker) (plain : '\\' ∉ word)
    (rest : Text) : Silent marker word rest :=
  fun _ within filled => isMarker.not_prefix_inside (fun member => plain (within.subset member))
    filled rest

section Marker

variable {opening closing : Text}

/-- Where a closing marker does not start, none starts in an opening one either. -/
theorem IsMarker.silent_of_unclosed (opens : IsMarker opening) (closes : IsMarker closing)
    {rest : Text} (unclosed : ¬ closing <+: opening ++ rest) : Silent closing opening rest := by
  obtain ⟨word, rfl, plain⟩ := opens
  intro suffix within filled
  rcases List.suffix_cons_iff.mp within with rfl | inside
  · exact unclosed
  · exact closes.silent plain rest suffix inside filled

/-- Behind its backslash a marker is passed over. -/
theorem splitAtClosing_plain (opens : IsMarker opening) (closes : IsMarker closing) {word : Text}
    (plain : '\\' ∉ word) (depth : Nat) (rest : Text) :
    splitAtClosing opening closing depth 0 (word ++ rest) =
      (splitAtClosing opening closing depth 0 rest).map
        fun (found, after) => (word ++ found, after) :=
  splitAtClosing_pass (fun suffix within filled =>
    ⟨opens.silent plain rest suffix within filled,
      closes.silent plain rest suffix within filled⟩) depth

/-- The rest of a marker need not be passed over: the search meets no marker in it. -/
theorem splitAtClosing_covering (opens : IsMarker opening) (closes : IsMarker closing)
    {marker : Text} (isMarker : IsMarker marker) {c : Char} {rest : Text}
    (starts : marker <+: c :: rest) (depth : Nat) :
    splitAtClosing opening closing depth (marker.length - 1) rest =
      splitAtClosing opening closing depth 0 rest := by
  obtain ⟨word, rfl, plain⟩ := isMarker
  obtain ⟨rfl, after, rfl⟩ := List.cons_prefix_cons.mp starts
  rw [List.length_cons, Nat.add_sub_cancel, splitAtClosing_covered,
    splitAtClosing_plain opens closes plain]

/-- The search for the closing marker, position by position. -/
theorem splitAtClosing_cons (opens : IsMarker opening) (closes : IsMarker closing) (depth : Nat)
    (c : Char) (rest : Text) :
    splitAtClosing opening closing depth 0 (c :: rest) =
      match Text.dropFront? closing (c :: rest) with
      | some after =>
        match depth with
        | 0 => some ([], after)
        | outer + 1 => keepFirst c (splitAtClosing opening closing outer 0 rest)
      | none =>
        if Text.startsWith opening (c :: rest) then
          keepFirst c (splitAtClosing opening closing (depth + 1) 0 rest)
        else keepFirst c (splitAtClosing opening closing depth 0 rest) := by
  rw [splitAtClosing]
  cases closed : Text.dropFront? closing (c :: rest) with
  | some after =>
    cases depth with
    | zero => rfl
    | succ outer =>
      have starts : closing <+: c :: rest := ⟨after, (Text.dropFront?_eq_some_iff.mp closed).symm⟩
      exact congrArg (keepFirst c) (splitAtClosing_covering opens closes closes starts outer)
  | none =>
    cases opened : Text.startsWith opening (c :: rest) with
    | false => rfl
    | true =>
      have starts := Text.startsWith_iff.mp opened
      obtain ⟨after, whole⟩ := starts
      have unclosed := Text.dropFront?_eq_none_iff.mp closed
      rw [← whole] at unclosed
      have counted := startsWithin_iff_silent.mpr (opens.silent_of_unclosed closes unclosed)
      rw [whole] at counted
      simp only [counted, Bool.not_false, Bool.and_self, if_true]
      exact congrArg (keepFirst c)
        (splitAtClosing_covering opens closes opens ⟨after, whole⟩ (depth + 1))

/-- Up to a backslash, the search for the closing marker does not depend on what
follows: it ends here, or it goes on in the same way. -/
theorem splitAtClosing_step (opens : IsMarker opening) (closes : IsMarker closing) (depth : Nat)
    (c : Char) (before : Text) :
    (depth = 0 ∧ closing <+: c :: before) ∨
      ∃ next, ∀ after, splitAtClosing opening closing depth 0 (c :: (before ++ '\\' :: after)) =
        keepFirst c (splitAtClosing opening closing next 0 (before ++ '\\' :: after)) := by
  have nonempty : c :: before ≠ [] := by simp
  by_cases closed : closing <+: c :: before
  · cases depth with
    | zero => exact .inl ⟨rfl, closed⟩
    | succ outer =>
      refine .inr ⟨outer, fun after => ?_⟩
      obtain ⟨rest, found⟩ := (closes.prefix_append_iff nonempty after).mpr closed
      rw [List.cons_append] at found
      rw [splitAtClosing_cons opens closes, Text.dropFront?_eq_some_iff.mpr found.symm]
  · refine .inr ⟨if opening <+: c :: before then depth + 1 else depth, fun after => ?_⟩
    have unclosed := Text.dropFront?_eq_none_iff.mpr
      (mt (closes.prefix_append_iff nonempty after).mp closed)
    have opened := opens.prefix_append_iff nonempty after
    rw [← Text.startsWith_iff] at opened
    rw [List.cons_append] at unclosed opened
    rw [splitAtClosing_cons opens closes, unclosed]
    simp only [opened]
    split <;> rfl

/-- The search for the closing marker ends before a backslash, or it reaches it
at some depth, whatever follows. -/
theorem splitAtClosing_before (opens : IsMarker opening) (closes : IsMarker closing) (depth : Nat)
    (before : Text) :
    (∃ body behind, before = body ++ closing ++ behind ∧ ∀ after,
        splitAtClosing opening closing depth 0 (before ++ '\\' :: after) =
          some (body, behind ++ '\\' :: after)) ∨
      ∃ reached, ∀ after, splitAtClosing opening closing depth 0 (before ++ '\\' :: after) =
        (splitAtClosing opening closing reached 0 ('\\' :: after)).map
          fun (body, rest) => (before ++ body, rest) := by
  induction before generalizing depth with
  | nil => exact .inr ⟨depth, fun after => by simp⟩
  | cons c others inductionHypothesis =>
    rcases splitAtClosing_step opens closes depth c others with ⟨rfl, behind, found⟩ | ⟨next, step⟩
    · refine .inl ⟨[], behind, found.symm, fun after => ?_⟩
      have here : c :: (others ++ '\\' :: after) = closing ++ (behind ++ '\\' :: after) := by
        rw [← List.cons_append, ← found, List.append_assoc]
      have filled : closing ≠ [] := by
        obtain ⟨word, rfl, -⟩ := closes
        exact List.cons_ne_nil _ _
      rw [List.cons_append, here, splitAtClosing_ends filled]
    · rcases inductionHypothesis next with ⟨body, behind, rfl, ends⟩ | ⟨reached, goesOn⟩
      · refine .inl ⟨c :: body, behind, rfl, fun after => ?_⟩
        rw [List.cons_append, step, ends]
        rfl
      · refine .inr ⟨reached, fun after => ?_⟩
        rw [List.cons_append, step, goesOn]
        cases splitAtClosing opening closing reached 0 ('\\' :: after) <;> rfl

end Marker

section Bare

variable {name : Text} (bare : '\\' ∉ name)

include bare

/-- No closing marker starts in an opening one. -/
theorem silent_beginMarker (rest : Text) : Silent (endMarker name) (beginMarker name) rest := by
  refine (isMarker_beginMarker bare).silent_of_unclosed (isMarker_endMarker bare) ?_
  have opening : beginMarker name = '\\' :: 'b' :: ("egin".toList ++ '{' :: name ++ ['}']) := rfl
  have closing : endMarker name = '\\' :: 'e' :: ("nd".toList ++ '{' :: name ++ ['}']) := rfl
  rw [opening, closing, List.cons_append, List.cons_append, List.cons_prefix_cons,
    List.cons_prefix_cons]
  exact fun start => absurd start.2.1 (by decide)

/-- An opening marker leads one level deeper. -/
theorem splitAtClosing_beginMarker (depth : Nat) (rest : Text) :
    splitAtClosing (beginMarker name) (endMarker name) depth 0 (beginMarker name ++ rest) =
      (splitAtClosing (beginMarker name) (endMarker name) (depth + 1) 0 rest).map
        fun (found, after) => (beginMarker name ++ found, after) :=
  splitAtClosing_opening (beginMarker_ne_nil name) (silent_beginMarker bare rest) depth

end Bare

/-! ## Environments position by position -/

section Stepwise

variable {σ : Type} {name : Text} {maxOptions required : Nat} {answer : Answer σ Environment}
  {state : σ} {cursor : Cursor}

/-- The rule for environments that goes on behind the first character of a marker that opens
none. -/
def stepwiseRule {σ : Type} (name : Text) (maxOptions required : Nat)
    (answer : Answer σ Environment) : Rule σ :=
  fun state cursor text =>
    match readEnvironment name maxOptions required cursor text with
    | none => (state, none)
    | some (environment, rest) =>
      let (state, replacement) := answer state environment
      (state, some (Edit.byAnswer text rest replacement))

/-- Behind the backslash of a marker that opens no environment, none is read. -/
theorem readEnvironment_word (bare : '\\' ∉ name) {word : Text} (plain : '\\' ∉ word)
    (filled : word ≠ []) (cursor : Cursor) (rest : Text) :
    readEnvironment name maxOptions required cursor (word ++ rest) = none :=
  readEnvironment_unopened cursor
    ((isMarker_beginMarker bare).not_prefix_inside plain filled rest)

/-- A marker that opens no environment stays as it is. -/
theorem environmentRule_beginMarker (cursor : Cursor) {after : Text}
    (unread : readEnvironment name maxOptions required cursor (beginMarker name ++ after) = none) :
    environmentRule name maxOptions required answer state cursor (beginMarker name ++ after) =
      (state, some (Edit.upTo (beginMarker name ++ after) after (beginMarker name))) := by
  rw [environmentRule, unread, Text.dropFront?_append, Option.map_some, byAnswer_none]

/-- A marker that opens no environment is passed over when environments are edited position by
position. -/
theorem editFrom_stepwiseRule_beginMarker (bare : '\\' ∉ name) {after : Text}
    (unread : readEnvironment name maxOptions required cursor (beginMarker name ++ after) = none) :
    editFrom (stepwiseRule name maxOptions required answer) state cursor 0
        (beginMarker name ++ after) =
      ((editFrom (stepwiseRule name maxOptions required answer) state
          (cursor.advanceOver (beginMarker name)) 0 after).1,
        beginMarker name ++ (editFrom (stepwiseRule name maxOptions required answer) state
          (cursor.advanceOver (beginMarker name)) 0 after).2) := by
  obtain ⟨word, marker, plain⟩ := isMarker_beginMarker bare
  rw [marker, List.cons_append] at unread ⊢
  have silent (cursor : Cursor) (suffix : Text) (within : suffix <:+ word)
      (filled : suffix ≠ []) :
      stepwiseRule name maxOptions required answer state cursor (suffix ++ after) =
        (state, none) := by
    rw [stepwiseRule, readEnvironment_word bare (fun member => plain (within.subset member)) filled]
  have here : stepwiseRule name maxOptions required answer state cursor ('\\' :: (word ++ after)) =
      (state, none) := by rw [stepwiseRule, unread]
  rw [editFrom_keep here, editFrom_pass silent]
  rfl

/-- For a name without a backslash environments are edited position by position. -/
theorem editFrom_environmentRule (bare : '\\' ∉ name) (state : σ) (cursor : Cursor)
    (covered : Nat) (text : Text) :
    editFrom (environmentRule name maxOptions required answer) state cursor covered text =
      editFrom (stepwiseRule name maxOptions required answer) state cursor covered text := by
  induction size : text.length using Nat.strong_induction_on
    generalizing state cursor covered text with
  | _ size inductionHypothesis =>
  subst size
  cases text with
  | nil => simp
  | cons c rest =>
  cases covered with
  | succ covered =>
    exact inductionHypothesis rest.length (Nat.lt_succ_self _) state (cursor.advance c) covered
      rest rfl
  | zero =>
  have goesOn := inductionHypothesis rest.length (Nat.lt_succ_self _)
  cases read : readEnvironment name maxOptions required cursor (c :: rest) with
  | some reading =>
    simp only [editFrom, environmentRule, stepwiseRule, read,
      goesOn _ (cursor.advance c) _ rest rfl]
  | none =>
    cases opened : Text.dropFront? (beginMarker name) (c :: rest) with
    | none =>
      have silent : environmentRule name maxOptions required answer state cursor (c :: rest) =
          (state, none) := by rw [environmentRule, read, opened, Option.map_none]
      have alsoSilent : stepwiseRule name maxOptions required answer state cursor (c :: rest) =
          (state, none) := by rw [stepwiseRule, read]
      rw [editFrom_keep silent, editFrom_keep alsoSilent, goesOn _ (cursor.advance c) 0 rest rfl]
    | some after =>
      have whole := Text.dropFront?_eq_some_iff.mp opened
      have shorter : after.length < (c :: rest).length := by
        rw [whole, List.length_append]
        exact Nat.lt_add_of_pos_left (List.length_pos_iff.mpr (beginMarker_ne_nil name))
      rw [whole] at read ⊢
      rw [editFrom_replace (beginMarker_ne_nil name) (environmentRule_beginMarker cursor read),
        inductionHypothesis after.length shorter _ _ 0 after rfl,
        editFrom_stepwiseRule_beginMarker bare read]

/-- For a name without a backslash, a position at which no environment is read is passed. -/
theorem editFrom_environmentRule_unread (bare : '\\' ∉ name) {c : Char} {rest : Text}
    (unread : readEnvironment name maxOptions required cursor (c :: rest) = none) :
    editFrom (environmentRule name maxOptions required answer) state cursor 0 (c :: rest) =
      ((editFrom (environmentRule name maxOptions required answer) state (cursor.advance c) 0
          rest).1,
        c :: (editFrom (environmentRule name maxOptions required answer) state
          (cursor.advance c) 0 rest).2) := by
  have silent : stepwiseRule name maxOptions required answer state cursor (c :: rest) =
      (state, none) := by rw [stepwiseRule, unread]
  simp only [editFrom_environmentRule bare, editFrom_keep silent]

/-- The characters that belong to a marker are passed over. -/
theorem findEnvironmentFrom_covered (cursor : Cursor) (piece rest : Text) :
    findEnvironmentFrom name maxOptions required cursor piece.length (piece ++ rest) =
      findEnvironmentFrom name maxOptions required (cursor.advanceOver piece) 0 rest := by
  induction piece generalizing cursor with
  | nil => rfl
  | cons c others inductionHypothesis => exact inductionHypothesis (cursor.advance c)

/-- Up to an opening marker no environment is found. -/
theorem findEnvironmentFrom_append {front rest : Text}
    (silent : Silent (beginMarker name) front rest) (cursor : Cursor) :
    findEnvironmentFrom name maxOptions required cursor 0 (front ++ rest) =
      findEnvironmentFrom name maxOptions required (cursor.advanceOver front) 0 rest := by
  induction front generalizing cursor with
  | nil => rfl
  | cons c others inductionHypothesis =>
    have unopened := silent (c :: others) (List.suffix_refl _) (List.cons_ne_nil c others)
    have unstarted := mt Text.startsWith_iff.mp unopened
    rw [List.cons_append] at unopened unstarted ⊢
    rw [findEnvironmentFrom, readEnvironment_unopened cursor unopened]
    simp only [unstarted]
    exact inductionHypothesis silent.tail _

/-- Where an opening marker opens no environment, the search goes on behind the marker. -/
theorem findEnvironmentFrom_marker {rest : Text}
    (unread : readEnvironment name maxOptions required cursor (beginMarker name ++ rest) = none) :
    findEnvironmentFrom name maxOptions required cursor 0 (beginMarker name ++ rest) =
      findEnvironmentFrom name maxOptions required (cursor.advanceOver (beginMarker name)) 0
        rest := by
  have starts : Text.startsWith (beginMarker name) (beginMarker name ++ rest) = true :=
    Text.startsWith_iff.mpr (List.prefix_append _ _)
  obtain ⟨c, word, marker⟩ := List.exists_cons_of_ne_nil (beginMarker_ne_nil name)
  rw [marker, List.cons_append] at unread starts ⊢
  rw [findEnvironmentFrom, unread, marker]
  simp only [starts, if_true]
  rw [List.length_cons, Nat.add_sub_cancel, findEnvironmentFrom_covered]
  rfl

/-- For a name without a backslash, the search goes on at the next position. -/
theorem findEnvironmentFrom_unread (bare : '\\' ∉ name) {c : Char} {rest : Text}
    (unread : readEnvironment name maxOptions required cursor (c :: rest) = none) :
    findEnvironmentFrom name maxOptions required cursor 0 (c :: rest) =
      findEnvironmentFrom name maxOptions required (cursor.advance c) 0 rest := by
  by_cases opened : beginMarker name <+: c :: rest
  · obtain ⟨after, whole⟩ := opened
    obtain ⟨word, marker, plain⟩ := isMarker_beginMarker bare
    rw [← whole] at unread ⊢
    rw [findEnvironmentFrom_marker unread]
    rw [marker, List.cons_append] at whole
    obtain ⟨rfl, rfl⟩ := List.cons.inj whole
    rw [marker]
    exact (findEnvironmentFrom_append ((isMarker_beginMarker bare).silent plain after) _).symm
  · rw [findEnvironmentFrom, unread]
    simp only [mt Text.startsWith_iff.mp opened]
    rfl

end Stepwise

end LatexMarkdown.Scan
