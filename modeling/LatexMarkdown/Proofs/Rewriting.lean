import LatexMarkdown.Proofs.Editing

/-!
# What an edit leaves of a text

An edit that looks for matches replaces each of them by the answer on it or, without an
answer, keeps it, from left to right; everything between the matches is kept. It is enough
that its rule offers this at every position. Where the rule edits parts of a match in the
same way, the bound on its depth says nothing: every part is edited by itself.
-/

namespace LatexMarkdown.Scan

/-! ## Searches and what they leave -/

/-- What an edit looks for. A match is found in front of the rest of the text; an incomplete
one is passed over. A match that is declined is passed over as well, or entered: then the
search goes on behind its first character. -/
structure Search (α : Type) where
  IsMatch : Cursor → (matched rest : Text) → α → Prop
  IsIncomplete : Cursor → (passed rest : Text) → Prop
  entersDeclined : Bool

variable {σ α : Type}

/-- Neither a match nor an incomplete one starts at a position. -/
structure Search.Unstarted (search : Search α) (cursor : Cursor) (text : Text) : Prop where
  unmatched : ∀ matched rest found, text = matched ++ rest →
    ¬ search.IsMatch cursor matched rest found
  complete : ∀ passed rest, text = passed ++ rest → ¬ search.IsIncomplete cursor passed rest

/-- A text is rewritten piece by piece, from a state and a position on: where no match
starts, a character is kept; an incomplete match is passed over; a match is replaced by its
answer, and kept without one. -/
inductive Rewrites (search : Search α) (answer : Answer σ α) :
    σ → Cursor → Text → σ → Text → Prop
  | done {state : σ} {cursor : Cursor} : Rewrites search answer state cursor [] state []
  | keep {state next : σ} {cursor : Cursor} {c : Char} {rest written : Text}
      (unstarted : search.Unstarted cursor (c :: rest))
      (more : Rewrites search answer state (cursor.advance c) rest next written) :
      Rewrites search answer state cursor (c :: rest) next (c :: written)
  | pass {state next : σ} {cursor : Cursor} {passed rest written : Text}
      (isIncomplete : search.IsIncomplete cursor passed rest)
      (more : Rewrites search answer state (cursor.advanceOver passed) rest next written) :
      Rewrites search answer state cursor (passed ++ rest) next (passed ++ written)
  | replace {state middle next : σ} {cursor : Cursor} {matched rest replacement written : Text}
      {found : α} (isMatch : search.IsMatch cursor matched rest found)
      (answered : answer state found = (middle, some replacement))
      (more : Rewrites search answer middle (cursor.advanceOver matched) rest next written) :
      Rewrites search answer state cursor (matched ++ rest) next (replacement ++ written)
  | decline {state middle next : σ} {cursor : Cursor} {matched rest written : Text} {found : α}
      (passesDeclined : search.entersDeclined = false)
      (isMatch : search.IsMatch cursor matched rest found)
      (declined : answer state found = (middle, none))
      (more : Rewrites search answer middle (cursor.advanceOver matched) rest next written) :
      Rewrites search answer state cursor (matched ++ rest) next (matched ++ written)
  | enter {state middle next : σ} {cursor : Cursor} {c : Char} {matched rest written : Text}
      {found : α} (entersDeclined : search.entersDeclined = true)
      (isMatch : search.IsMatch cursor (c :: matched) rest found)
      (declined : answer state found = (middle, none))
      (more : Rewrites search answer middle (cursor.advance c) (matched ++ rest) next written) :
      Rewrites search answer state cursor (c :: (matched ++ rest)) next (c :: written)

/-- Where every answer declines, the text stays as it is. -/
theorem Rewrites.eq_of_declines {search : Search α} {answer : Answer σ α}
    (declines : ∀ state found, (answer state found).2 = none) {state next : σ} {cursor : Cursor}
    {text written : Text} (rewrites : Rewrites search answer state cursor text next written) :
    written = text := by
  induction rewrites with
  | done => rfl
  | keep _ _ inductionHypothesis => rw [inductionHypothesis]
  | pass _ _ inductionHypothesis => rw [inductionHypothesis]
  | @replace state _ _ _ _ _ _ _ found _ answered _ _ =>
    have declined := declines state found
    rw [answered] at declined
    cases declined
  | decline _ _ _ _ inductionHypothesis => rw [inductionHypothesis]
  | enter _ _ _ _ inductionHypothesis => rw [inductionHypothesis]

/-! ## Rules that carry out a search -/

/-- What a rule may offer at a position if it carries out a search. -/
inductive Offers (search : Search α) (answer : Answer σ α) (state : σ) (cursor : Cursor)
    (text : Text) : σ × Option Edit → Prop
  | silent (unstarted : search.Unstarted cursor text) :
      Offers search answer state cursor text (state, none)
  | passed {passed rest : Text} (split : text = passed ++ rest) (nonempty : passed ≠ [])
      (isIncomplete : search.IsIncomplete cursor passed rest) :
      Offers search answer state cursor text (state, some (Edit.byAnswer text rest none))
  | matched {matched rest : Text} {found : α} (split : text = matched ++ rest)
      (nonempty : matched ≠ []) (passesDeclined : search.entersDeclined = false)
      (isMatch : search.IsMatch cursor matched rest found) :
      Offers search answer state cursor text ((answer state found).1,
        some (Edit.byAnswer text rest (answer state found).2))
  | entered {matched rest : Text} {found : α} (split : text = matched ++ rest)
      (nonempty : matched ≠ []) (entersDeclined : search.entersDeclined = true)
      (isMatch : search.IsMatch cursor matched rest found) :
      Offers search answer state cursor text ((answer state found).1,
        (answer state found).2.map (Edit.upTo text rest))

/-- A rule that carries out a search everywhere rewrites the whole text. -/
theorem rewrites_editFrom {search : Search α} {answer : Answer σ α} {rule : Rule σ}
    (offers : ∀ state cursor suffix, suffix ≠ [] →
      Offers search answer state cursor suffix (rule state cursor suffix))
    (state : σ) (cursor : Cursor) (text : Text) :
    Rewrites search answer state cursor text (editFrom rule state cursor 0 text).1
      (editFrom rule state cursor 0 text).2 := by
  induction size : text.length using Nat.strong_induction_on generalizing state cursor text with
  | _ size inductionHypothesis =>
  subst size
  cases text with
  | nil => exact .done
  | cons c rest =>
    have shorter {matched behind : Text} (split : c :: rest = matched ++ behind)
        (nonempty : matched ≠ []) : behind.length < (c :: rest).length := by
      rw [split, List.length_append]
      exact Nat.lt_add_of_pos_left (List.length_pos_of_ne_nil nonempty)
    have goesOn {next : σ} : Rewrites search answer next (cursor.advance c) rest _ _ :=
      inductionHypothesis rest.length (Nat.lt_succ_self _) next (cursor.advance c) rest rfl
    have behindOf {next : σ} {matched behind : Text} (split : c :: rest = matched ++ behind)
        (nonempty : matched ≠ []) :
        Rewrites search answer next (cursor.advanceOver matched) behind _ _ :=
      inductionHypothesis behind.length (shorter split nonempty) next _ behind rfl
    have offer := offers state cursor (c :: rest) (List.cons_ne_nil _ _)
    generalize made : rule state cursor (c :: rest) = step at offer
    cases offer with
    | silent unstarted =>
      rw [editFrom_keep made]
      exact .keep unstarted goesOn
    | @passed passed behind split nonempty isIncomplete =>
      rw [split, byAnswer_none] at made
      rw [split, editFrom_replace nonempty made]
      exact .pass isIncomplete (behindOf split nonempty)
    | @matched matched behind found split nonempty passesDeclined isMatch =>
      cases answered : answer state found with
      | mk middle reply =>
      cases reply with
      | none =>
        rw [split, answered, byAnswer_none] at made
        rw [split, editFrom_replace nonempty made]
        exact .decline passesDeclined isMatch answered (behindOf split nonempty)
      | some replacement =>
        rw [split, answered, byAnswer_some] at made
        rw [split, editFrom_replace nonempty made]
        exact .replace isMatch answered (behindOf split nonempty)
    | @entered matched behind found split nonempty entersDeclined isMatch =>
      cases answered : answer state found with
      | mk middle reply =>
      cases reply with
      | none =>
        rw [answered, Option.map_none] at made
        rw [editFrom_keep made]
        obtain ⟨d, others, rfl⟩ := List.exists_cons_of_ne_nil nonempty
        obtain ⟨rfl, rfl⟩ := List.cons.inj split
        exact .enter entersDeclined isMatch answered goesOn
      | some replacement =>
        rw [split, answered, Option.map_some] at made
        rw [split, editFrom_replace nonempty made]
        exact .replace isMatch answered (behindOf split nonempty)

/-! ## Nested edits -/

/-- Rules that offer the same at all suffixes of a text edit it alike. -/
theorem editFrom_congr {first second : Rule σ} {text : Text}
    (same : ∀ state cursor suffix, suffix <:+ text → suffix ≠ [] →
      first state cursor suffix = second state cursor suffix)
    (state : σ) (cursor : Cursor) (covered : Nat) :
    editFrom first state cursor covered text = editFrom second state cursor covered text := by
  induction text generalizing state cursor covered with
  | nil => rw [editFrom_nil, editFrom_nil]
  | cons c rest inductionHypothesis =>
    have behind := inductionHypothesis fun state cursor suffix within =>
      same state cursor suffix (suffix_cons_of_suffix within)
    cases covered with
    | succ covered =>
      rw [editFrom, editFrom, behind]
    | zero =>
      rw [editFrom, editFrom, same state cursor _ (List.suffix_refl _) (List.cons_ne_nil _ _)]
      simp only [behind]

/-- Steps that agree on the members of a list agree on the list. -/
theorem mapThread_congr {β : Type} {first second : σ → α → σ × β} {items : List α}
    (same : ∀ state, ∀ item ∈ items, first state item = second state item) (state : σ) :
    mapThread first state items = mapThread second state items := by
  induction items generalizing state with
  | nil => rfl
  | cons item others inductionHypothesis =>
    rw [mapThread, mapThread, same state item List.mem_cons_self]
    simp only [inductionHypothesis fun state other member =>
      same state other (List.mem_cons_of_mem item member)]

/-- A rule that edits parts of what it reads in the same way asks this only about texts that
are shorter than the one it stands before. -/
def IsNesting (rule : (σ → Text → σ × Text) → Rule σ) : Prop :=
  ∀ first second text,
    (∀ state inner, inner.length < text.length → first state inner = second state inner) →
      ∀ state cursor, rule first state cursor text = rule second state cursor text

section Nesting

variable {rule : (σ → Text → σ × Text) → Rule σ} {atDepth : Nat → σ → Text → σ × Text}
  (nesting : IsNesting rule) (bottom : ∀ state text, atDepth 0 state text = (state, text))
  (step : ∀ depth state text,
    atDepth (depth + 1) state text = edit (rule (atDepth depth)) state text)

include nesting bottom step

/-- From the length of the text on, the depth bound of a nesting rule does not matter. -/
theorem IsNesting.atDepth_eq {depth : Nat} {text : Text} (deep : text.length ≤ depth) (state : σ) :
    atDepth depth state text = atDepth text.length state text := by
  induction size : text.length using Nat.strong_induction_on generalizing text depth state with
  | _ size inductionHypothesis =>
  subst size
  cases depth with
  | zero => rw [Nat.le_zero.mp deep]
  | succ depth =>
    cases size : text.length with
    | zero =>
      rw [List.length_eq_zero_iff.mp size, bottom, step]
      rfl
    | succ length =>
      rw [step, step]
      refine editFrom_congr (fun state cursor suffix within _ => ?_) state Cursor.start 0
      refine nesting _ _ suffix (fun state inner shorter => ?_) state cursor
      have small : inner.length < text.length := shorter.trans_le within.length_le
      rw [inductionHypothesis inner.length small (by omega : inner.length ≤ depth) state rfl,
        inductionHypothesis inner.length small (by omega : inner.length ≤ length) state rfl]

/-- With the length of each text as its bound, a nesting rule edits every part by itself. -/
theorem IsNesting.edit_eq (state : σ) (text : Text) :
    atDepth text.length state text =
      edit (rule fun state inner => atDepth inner.length state inner) state text := by
  rw [← nesting.atDepth_eq bottom step (Nat.le_succ text.length), step]
  refine editFrom_congr (fun state cursor suffix within _ => ?_) state Cursor.start 0
  refine nesting _ _ suffix (fun state inner shorter => ?_) state cursor
  exact nesting.atDepth_eq bottom step (shorter.trans_le within.length_le).le state

end Nesting

end LatexMarkdown.Scan
