import LatexMarkdown.Proofs.Reading

/-!
# Editing step by step

An edit up to what remains writes its replacement and goes on there. A whole
edit is thus a sequence of kept characters and replaced pieces.
-/

namespace LatexMarkdown.Scan

variable {σ : Type} {rule : Rule σ} {state next : σ}

/-- Nothing is left to edit at the end of a text. -/
@[simp] theorem editFrom_nil (cursor : Cursor) (covered : Nat) :
    editFrom rule state cursor covered [] = (state, []) := by
  cases covered <;> rfl

/-- Covered characters are passed over. -/
theorem editFrom_covered (cursor : Cursor) (covered rest : Text) :
    editFrom rule state cursor covered.length (covered ++ rest) =
      editFrom rule state (cursor.advanceOver covered) 0 rest := by
  induction covered generalizing cursor with
  | nil => rfl
  | cons c others inductionHypothesis =>
    exact inductionHypothesis (cursor.advance c)

/-- A character that no edit starts at is kept. -/
theorem editFrom_keep {cursor : Cursor} {c : Char} {rest : Text}
    (silent : rule state cursor (c :: rest) = (next, none)) :
    editFrom rule state cursor 0 (c :: rest) =
      ((editFrom rule next (cursor.advance c) 0 rest).1,
        c :: (editFrom rule next (cursor.advance c) 0 rest).2) := by
  rw [editFrom, silent]

/-- An edit up to what remains replaces what was read before it. -/
theorem editFrom_replace {cursor : Cursor} {matched rest replacement : Text}
    (nonempty : matched ≠ [])
    (offered : rule state cursor (matched ++ rest) =
      (next, some (Edit.upTo (matched ++ rest) rest replacement))) :
    editFrom rule state cursor 0 (matched ++ rest) =
      ((editFrom rule next (cursor.advanceOver matched) 0 rest).1,
        replacement ++ (editFrom rule next (cursor.advanceOver matched) 0 rest).2) := by
  obtain ⟨c, others, rfl⟩ := List.exists_cons_of_ne_nil nonempty
  have width : (Edit.upTo (c :: (others ++ rest)) rest replacement).width - 1 = others.length := by
    simp [Edit.upTo]
    omega
  rw [List.cons_append] at offered ⊢
  rw [editFrom, offered]
  simp only [width]
  rw [editFrom_covered (cursor.advance c) others rest]
  rfl

/-- An answer that declines keeps exactly what was read. -/
theorem byAnswer_none (matched rest : Text) :
    Edit.byAnswer (matched ++ rest) rest none = Edit.upTo (matched ++ rest) rest matched := by
  simp [Edit.byAnswer]

/-- An answer is written in the place of what was read. -/
theorem byAnswer_some (text rest answer : Text) :
    Edit.byAnswer text rest (some answer) = Edit.upTo text rest answer :=
  rfl

/-- A rule that offers nothing anywhere in a text leaves the text as it is. -/
theorem editFrom_of_silent_within {text : Text}
    (silent : ∀ cursor suffix, suffix <:+ text → suffix ≠ [] →
      rule state cursor suffix = (state, none))
    (cursor : Cursor) : editFrom rule state cursor 0 text = (state, text) := by
  induction text generalizing cursor with
  | nil => rfl
  | cons c rest inductionHypothesis =>
    rw [editFrom_keep (silent cursor (c :: rest) (List.suffix_refl _) (by simp)),
      inductionHypothesis fun cursor suffix within =>
        silent cursor suffix (suffix_cons_of_suffix within)]

/-- A rule that offers nothing anywhere in a text leaves the text as it is. -/
theorem edit_of_silent_within {text : Text}
    (silent : ∀ cursor suffix, suffix <:+ text → suffix ≠ [] →
      rule state cursor suffix = (state, none)) :
    edit rule state text = (state, text) :=
  editFrom_of_silent_within silent Cursor.start

/-- A piece in which nothing is offered before what follows is kept. -/
theorem editFrom_pass {piece rest : Text}
    (silent : ∀ cursor suffix, suffix <:+ piece → suffix ≠ [] →
      rule state cursor (suffix ++ rest) = (state, none)) (cursor : Cursor) :
    editFrom rule state cursor 0 (piece ++ rest) =
      ((editFrom rule state (cursor.advanceOver piece) 0 rest).1,
        piece ++ (editFrom rule state (cursor.advanceOver piece) 0 rest).2) := by
  induction piece generalizing cursor with
  | nil => rfl
  | cons c others inductionHypothesis =>
    have here := silent cursor (c :: others) (List.suffix_refl _) (by simp)
    rw [List.cons_append] at here ⊢
    rw [editFrom_keep here, inductionHypothesis fun cursor suffix within =>
      silent cursor suffix (within.trans (List.suffix_cons c others))]
    rfl

/-- A rule that keeps whatever it covers leaves the text as it is. -/
theorem editFrom_of_keeping {text : Text}
    (keeps : ∀ cursor suffix, suffix <:+ text → suffix ≠ [] →
      rule state cursor suffix = (state, none) ∨
        ∃ matched rest, matched ≠ [] ∧ suffix = matched ++ rest ∧
          rule state cursor suffix = (state, some (Edit.byAnswer suffix rest none)))
    (cursor : Cursor) : editFrom rule state cursor 0 text = (state, text) := by
  induction size : text.length using Nat.strong_induction_on generalizing text cursor with
  | _ size inductionHypothesis =>
  subst size
  cases text with
  | nil => rfl
  | cons c rest =>
    rcases keeps cursor (c :: rest) (List.suffix_refl _) (by simp) with
      silent | ⟨matched, behind, nonempty, split, offered⟩
    · rw [editFrom_keep silent, inductionHypothesis rest.length (Nat.lt_succ_self _)
        (fun cursor suffix within => keeps cursor suffix (suffix_cons_of_suffix within)) _ rfl]
    · rw [split, byAnswer_none] at offered
      have shorter : behind.length < (c :: rest).length := by
        rw [split, List.length_append]
        exact Nat.lt_add_of_pos_left (List.length_pos_of_ne_nil nonempty)
      have remains : behind <:+ c :: rest := split ▸ List.suffix_append matched behind
      rw [split, editFrom_replace nonempty offered, inductionHypothesis behind.length shorter
        (fun cursor suffix within => keeps cursor suffix (within.trans remains)) _ rfl]

/-- A text that is one environment is replaced as a whole. -/
theorem editEnvironment_whole {name text replacement : Text} {maxOptions required : Nat}
    {answer : Answer σ Environment} {environment : Environment}
    (read : readEnvironment name maxOptions required Cursor.start text = some (environment, []))
    (answered : answer state environment = (next, some replacement)) :
    editEnvironment name maxOptions required answer state text = (next, replacement) := by
  have nonempty : text ≠ [] := by
    rintro rfl
    exact absurd (readEnvironment_remains read).length_lt (Nat.lt_irrefl _)
  have offered : environmentRule name maxOptions required answer state Cursor.start
      (text ++ []) = (next, some (Edit.upTo (text ++ []) [] replacement)) := by
    rw [List.append_nil]
    simp only [environmentRule, read, answered, byAnswer_some]
  rw [editEnvironment, edit, ← List.append_nil text, editFrom_replace nonempty offered,
    editFrom_nil, List.append_nil]

/-- A rule that does not look at the position edits a text alike wherever it stands. -/
theorem editFrom_moveTo
    (blind : ∀ state first second suffix, rule state first suffix = rule state second suffix)
    (state : σ) (first second : Cursor) (covered : Nat) (text : Text) :
    editFrom rule state first covered text = editFrom rule state second covered text := by
  induction text generalizing state first second covered with
  | nil => simp
  | cons c rest inductionHypothesis =>
    cases covered with
    | succ covered =>
      rw [editFrom, editFrom]
      exact inductionHypothesis _ _ _ _
    | zero =>
      rw [editFrom, editFrom, blind state first second]
      rcases rule state second (c :: rest) with ⟨next, none | offered⟩
      · simp only [inductionHypothesis next (first.advance c) (second.advance c)]
      · simp only [inductionHypothesis next (first.advance c) (second.advance c)]

section Ahead

variable {ahead : Text → Option Edit}

/-- A rule that looks only at the text ahead does not depend on the cursor. -/
theorem editFrom_ahead_cursor (first second : Cursor) (covered : Nat) (text : Text) :
    editFrom (fun (_ : Unit) _ suffix => ((), ahead suffix)) () first covered text =
      editFrom (fun (_ : Unit) _ suffix => ((), ahead suffix)) () second covered text :=
  editFrom_moveTo (fun _ _ _ _ => rfl) () first second covered text

/-- A character that no edit starts at is kept. -/
theorem editAhead_keep {c : Char} {rest : Text} (silent : ahead (c :: rest) = none) :
    editAhead ahead (c :: rest) = c :: editAhead ahead rest := by
  simp only [editAhead, edit]
  rw [editFrom_keep (by rw [silent]), editFrom_ahead_cursor _ Cursor.start]

/-- An edit up to what remains replaces what was read before it. -/
theorem editAhead_replace {matched rest replacement : Text} (nonempty : matched ≠ [])
    (offered : ahead (matched ++ rest) = some (Edit.upTo (matched ++ rest) rest replacement)) :
    editAhead ahead (matched ++ rest) = replacement ++ editAhead ahead rest := by
  simp only [editAhead, edit]
  rw [editFrom_replace nonempty (by rw [offered]), editFrom_ahead_cursor _ Cursor.start]

/-- A character at which a pattern does not start is kept. -/
theorem replaceAll_cons {pattern rest : Text} {c : Char}
    (unstarted : Text.dropFront? pattern (c :: rest) = none) (replacement : Text) :
    replaceAll pattern replacement (c :: rest) = c :: replaceAll pattern replacement rest :=
  editAhead_keep (by rw [unstarted, Option.map_none])

/-- A pattern is replaced where it starts. -/
theorem replaceAll_append {pattern : Text} (nonempty : pattern ≠ []) (replacement rest : Text) :
    replaceAll pattern replacement (pattern ++ rest) =
      replacement ++ replaceAll pattern replacement rest := by
  refine editAhead_replace nonempty ?_
  have width : Edit.upTo (pattern ++ rest) rest replacement = ⟨pattern.length, replacement⟩ := by
    simp [Edit.upTo]
  rw [Text.dropFront?_append, Option.map_some, width]

/-- A text in which no edit starts is left as it is. -/
theorem editAhead_of_silent {text : Text}
    (silent : ∀ suffix, suffix <:+ text → suffix ≠ [] → ahead suffix = none) :
    editAhead ahead text = text := by
  rw [editAhead, edit_of_silent_within fun _ suffix within nonempty => by
    rw [silent suffix within nonempty]]

end Ahead

end LatexMarkdown.Scan
