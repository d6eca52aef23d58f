import LatexMarkdown.Proofs.Editing

/-!
# Positions that are not escaped

Every search for a delimiter looks at the positions that no backslash escapes. A condition
that holds at all of them is checked piece by piece, and a pass that stores what a reader
finds there goes over a text piece by piece.
-/

namespace LatexMarkdown.Scan

/-! ## Escapes over a text -/

/-- Whether the position behind a text is escaped, from whether the position before it is. -/
def escapesAfter (escaped : Bool) (text : Text) : Bool :=
  text.foldl escapesNext escaped

@[simp] theorem escapesAfter_nil (escaped : Bool) : escapesAfter escaped [] = escaped :=
  rfl

@[simp] theorem escapesAfter_cons (escaped : Bool) (c : Char) (rest : Text) :
    escapesAfter escaped (c :: rest) = escapesAfter (escapesNext escaped c) rest :=
  rfl

@[simp] theorem escapesAfter_append (escaped : Bool) (first second : Text) :
    escapesAfter escaped (first ++ second) = escapesAfter (escapesAfter escaped first) second :=
  List.foldl_append

/-- A text that ends with another character than a backslash escapes nothing. -/
theorem escapesAfter_concat {c : Char} (different : c ≠ '\\') (escaped : Bool) (text : Text) :
    escapesAfter escaped (text ++ [c]) = false := by
  rw [escapesAfter_append]
  exact escapesNext_of_ne different _

/-- Behind another character than a backslash it does not matter what stands before it. -/
theorem escapesAfter_append_cons {c : Char} (different : c ≠ '\\') (escaped : Bool)
    (front rest : Text) : escapesAfter escaped (front ++ c :: rest) = escapesAfter false rest := by
  rw [escapesAfter_append, escapesAfter_cons, escapesNext_of_ne different]

/-- A text without a backslash escapes nothing. -/
theorem escapesAfter_of_plain {text : Text} (plain : '\\' ∉ text) :
    escapesAfter false text = false := by
  induction text with
  | nil => rfl
  | cons c rest inductionHypothesis =>
    rw [List.mem_cons, not_or] at plain
    rw [escapesAfter_cons, escapesNext_of_ne (Ne.symm plain.1), inductionHypothesis plain.2]

/-- Behind something without a backslash nothing is escaped. -/
theorem escapesAfter_of_filled {text : Text} (filled : text ≠ []) (plain : '\\' ∉ text)
    (escaped : Bool) : escapesAfter escaped text = false := by
  obtain ⟨c, rest, rfl⟩ := List.exists_cons_of_ne_nil filled
  rw [List.mem_cons, not_or] at plain
  rw [escapesAfter_cons, escapesNext_of_ne (Ne.symm plain.1), escapesAfter_of_plain plain.2]

/-- A cursor goes over two texts one after the other. -/
theorem Cursor.advanceOver_append (cursor : Cursor) (first second : Text) :
    cursor.advanceOver (first ++ second) = (cursor.advanceOver first).advanceOver second :=
  List.foldl_append

/-- A cursor that goes over a text is escaped as the text says. -/
theorem Cursor.advanceOver_escaped_eq (cursor : Cursor) (text : Text) :
    (cursor.advanceOver text).escaped = escapesAfter cursor.escaped text := by
  induction text generalizing cursor with
  | nil => rfl
  | cons c rest inductionHypothesis => exact inductionHypothesis (cursor.advance c)

/-! ## Conditions on what follows -/

/-- A condition holds of what follows each position in a text that is not escaped. -/
def Everywhere (holds : Text → Prop) : (escaped : Bool) → Text → Prop
  | _, [] => True
  | escaped, c :: rest =>
    (escaped = false → holds (c :: rest)) ∧ Everywhere holds (escapesNext escaped c) rest

instance decidableEverywhere (holds : Text → Prop) [DecidablePred holds] :
    (escaped : Bool) → (text : Text) → Decidable (Everywhere holds escaped text)
  | _, [] => isTrue trivial
  | escaped, c :: rest =>
    have := decidableEverywhere holds (escapesNext escaped c) rest
    inferInstanceAs (Decidable (_ ∧ _))

section Everywhere

variable {holds other : Text → Prop} {escaped : Bool}

/-- What holds at the positions of two texts together is checked in each of them. -/
theorem everywhere_append {first second : Text} :
    Everywhere holds escaped (first ++ second) ↔
      Everywhere (fun suffix => holds (suffix ++ second)) escaped first ∧
        Everywhere holds (escapesAfter escaped first) second := by
  induction first generalizing escaped with
  | nil => exact ⟨fun later => ⟨trivial, later⟩, And.right⟩
  | cons c rest inductionHypothesis =>
    rw [List.cons_append, Everywhere, Everywhere, inductionHypothesis, and_assoc]
    rfl

/-- A weaker condition holds at the same positions. -/
theorem Everywhere.imp {text : Text} (everywhere : Everywhere holds escaped text)
    (weaker : ∀ suffix, suffix <:+ text → suffix ≠ [] → holds suffix → other suffix) :
    Everywhere other escaped text := by
  induction text generalizing escaped with
  | nil => trivial
  | cons c rest inductionHypothesis =>
    obtain ⟨here, later⟩ := everywhere
    refine ⟨fun free => weaker _ (List.suffix_refl _) (List.cons_ne_nil c rest) (here free),
      inductionHypothesis later fun suffix within => weaker suffix ?_⟩
    exact within.trans (List.suffix_cons c rest)

/-- Two conditions that hold at all positions hold there together. -/
theorem Everywhere.and {text : Text} (first : Everywhere holds escaped text)
    (second : Everywhere other escaped text) :
    Everywhere (fun suffix => holds suffix ∧ other suffix) escaped text := by
  induction text generalizing escaped with
  | nil => trivial
  | cons c rest inductionHypothesis =>
    exact ⟨fun free => ⟨first.1 free, second.1 free⟩, inductionHypothesis first.2 second.2⟩

/-- A condition that holds at all positions holds at the one behind a front that does not
escape it. -/
theorem Everywhere.behind {front text : Text}
    (everywhere : Everywhere holds escaped (front ++ text))
    (free : escapesAfter escaped front = false) (nonempty : text ≠ []) : holds text := by
  obtain ⟨c, rest, rfl⟩ := List.exists_cons_of_ne_nil nonempty
  rw [everywhere_append, free] at everywhere
  exact everywhere.2.1 rfl

/-- A condition that holds at all positions holds at the first one if nothing escapes it. -/
theorem Everywhere.here {text : Text} (everywhere : Everywhere holds false text)
    (nonempty : text ≠ []) : holds text := by
  obtain ⟨c, rest, rfl⟩ := List.exists_cons_of_ne_nil nonempty
  exact everywhere.1 rfl

/-- A condition that holds of all suffixes holds at all positions. -/
theorem everywhere_of_suffixes {text : Text}
    (all : ∀ suffix, suffix <:+ text → suffix ≠ [] → holds suffix) :
    Everywhere holds escaped text := by
  induction text generalizing escaped with
  | nil => trivial
  | cons c rest inductionHypothesis =>
    refine ⟨fun _ => all _ (List.suffix_refl _) (List.cons_ne_nil c rest),
      inductionHypothesis fun suffix within => all suffix ?_⟩
    exact within.trans (List.suffix_cons c rest)

/-- A condition that holds behind each front that does not escape it holds at all positions. -/
theorem everywhere_of_fronts {text : Text}
    (all : ∀ front suffix, text = front ++ suffix → escapesAfter escaped front = false →
      suffix ≠ [] → holds suffix) :
    Everywhere holds escaped text := by
  induction text generalizing escaped with
  | nil => trivial
  | cons c rest inductionHypothesis =>
    refine ⟨fun free => all [] _ rfl free (List.cons_ne_nil c rest), inductionHypothesis ?_⟩
    rintro front suffix rfl free filled
    exact all (c :: front) suffix rfl free filled

end Everywhere

/-- A piece in which a rule offers nothing, at the positions where it may offer anything, is
kept. -/
theorem editFrom_everywhere {σ : Type} {rule : Rule σ} {state : σ} {holds : Text → Prop}
    (silent : ∀ cursor suffix, cursor.escaped = true ∨ holds suffix →
      rule state cursor suffix = (state, none)) {piece after : Text} {cursor : Cursor}
    (everywhere : Everywhere (fun suffix => holds (suffix ++ after)) cursor.escaped piece) :
    editFrom rule state cursor 0 (piece ++ after) =
      ((editFrom rule state (cursor.advanceOver piece) 0 after).1,
        piece ++ (editFrom rule state (cursor.advanceOver piece) 0 after).2) := by
  induction piece generalizing cursor with
  | nil => rfl
  | cons c rest inductionHypothesis =>
    obtain ⟨here, later⟩ := everywhere
    have unoffered : rule state cursor (c :: (rest ++ after)) = (state, none) := by
      refine silent cursor _ ?_
      cases escaped : cursor.escaped with
      | true => exact .inl rfl
      | false => exact .inr (here escaped)
    have goesOn : Everywhere (fun suffix => holds (suffix ++ after)) (cursor.advance c).escaped
        rest := later
    rw [List.cons_append, editFrom_keep unoffered, inductionHypothesis goesOn]
    rfl

/-- A text in which a rule offers nothing stays as it is. -/
theorem editFrom_everywhere_whole {σ : Type} {rule : Rule σ} {state : σ} {holds : Text → Prop}
    (silent : ∀ cursor suffix, cursor.escaped = true ∨ holds suffix →
      rule state cursor suffix = (state, none)) {text : Text} {cursor : Cursor}
    (everywhere : Everywhere holds cursor.escaped text) :
    editFrom rule state cursor 0 text = (state, text) := by
  have kept : editFrom rule state cursor 0 (text ++ []) = _ :=
    editFrom_everywhere silent (by simpa only [List.append_nil] using everywhere)
  simpa only [List.append_nil, editFrom_nil] using kept

/-- A text in which a rule offers nothing is not edited. -/
theorem edit_everywhere {σ : Type} {rule : Rule σ} {state : σ} {holds : Text → Prop}
    (silent : ∀ cursor suffix, cursor.escaped = true ∨ holds suffix →
      rule state cursor suffix = (state, none)) {text : Text}
    (everywhere : Everywhere holds false text) : edit rule state text = (state, text) :=
  have unescaped : Everywhere holds Cursor.start.escaped text := everywhere
  editFrom_everywhere_whole silent unescaped

/-- The search for a pattern passes over all positions at which it does not start. -/
theorem splitUnescaped?_passes {pattern : Text} {escaped : Bool} {text body rest : Text}
    (read : splitUnescaped? pattern escaped text = some (body, rest)) :
    Everywhere (fun suffix => ¬ pattern <+: suffix ++ (pattern ++ rest)) escaped body := by
  induction text generalizing escaped body with
  | nil =>
    rw [splitUnescaped?] at read
    split at read
    · obtain ⟨rfl, -⟩ := Prod.mk.inj (Option.some.inj read)
      trivial
    · cases read
  | cons c others inductionHypothesis =>
    rw [splitUnescaped?] at read
    split at read
    · obtain ⟨rfl, -⟩ := Prod.mk.inj (Option.some.inj read)
      trivial
    next unstarted =>
      obtain ⟨inner, later, rfl⟩ := keepFirst_eq_some read
      refine ⟨fun free => ?_, inductionHypothesis later⟩
      have whole : others = inner ++ (pattern ++ rest) := by
        rw [splitUnescaped?_eq_append later, List.append_assoc]
      rw [free, whole] at unstarted
      exact Text.dropFront?_eq_none_iff.mp unstarted

/-- The search for a closing dollar passes over no dollar that is not escaped. -/
theorem readDollars_passes {escaped : Bool} {text body rest : Text}
    (read : readDollars escaped text = some (body, rest)) :
    Everywhere (fun suffix => ¬ ['$'] <+: suffix) escaped body := by
  induction text generalizing escaped body with
  | nil => cases escaped <;> cases read
  | cons c others inductionHypothesis =>
    have keeps {next : Bool} (same : next = escapesNext escaped c)
        (other : escaped = false → c ≠ '$')
        (kept : keepFirst c (readDollars next others) = some (body, rest)) :
        Everywhere (fun suffix => ¬ ['$'] <+: suffix) escaped body := by
      obtain ⟨inner, later, rfl⟩ := keepFirst_eq_some kept
      rw [same] at later
      refine ⟨fun free start => ?_, inductionHypothesis later⟩
      exact other free (List.cons_prefix_cons.mp start).1.symm
    cases escaped with
    | true => exact keeps (by rw [escapesNext, Bool.not_true, Bool.and_false]) nofun read
    | false =>
      simp only [readDollars] at read
      split at read
      next backslash =>
        subst backslash
        exact keeps rfl (fun _ => by decide) read
      next letter =>
        have goesOn : false = escapesNext false c := (escapesNext_of_ne letter false).symm
        split at read
        · obtain ⟨rfl, -⟩ := Prod.mk.inj (Option.some.inj read)
          trivial
        next unclosed =>
          split at read
          · cases read
          · exact keeps goesOn (fun _ => unclosed) read

/-! ## Passes that store what a reader finds -/

/-- A rule writes a token for what a reader reads at a position that is not escaped, and
does nothing elsewhere. The reader gives the text behind what it reads. -/
structure Rule.Stores {σ : Type} (rule : Rule σ) (rest? : Text → Option Text) : Prop where
  passes : ∀ state cursor text, cursor.escaped = true ∨ rest? text = none →
    rule state cursor text = (state, none)
  writes : ∀ state cursor text rest, cursor.escaped = false → rest? text = some rest →
    ∃ next index, rule state cursor text =
      (next, some (Edit.upTo text rest (Fragment.token index)))

section Stores

variable {σ : Type} {rule : Rule σ} {rest? : Text → Option Text} {cursor : Cursor}

/-- A piece in which nothing is read is kept. -/
theorem Rule.Stores.edit_passed (stores : rule.Stores rest?) {piece after : Text}
    (unread : Everywhere (fun suffix => rest? (suffix ++ after) = none) cursor.escaped piece)
    (state : σ) :
    editFrom rule state cursor 0 (piece ++ after) =
      ((editFrom rule state (cursor.advanceOver piece) 0 after).1,
        piece ++ (editFrom rule state (cursor.advanceOver piece) 0 after).2) :=
  editFrom_everywhere (stores.passes state) unread

/-- A piece that is read as a whole gives way to a token. -/
theorem Rule.Stores.edit_taken (stores : rule.Stores rest?) (free : cursor.escaped = false)
    {piece after : Text} (nonempty : piece ≠ []) (read : rest? (piece ++ after) = some after)
    (state : σ) :
    ∃ next index, editFrom rule state cursor 0 (piece ++ after) =
      ((editFrom rule next (cursor.advanceOver piece) 0 after).1,
        Fragment.token index ++ (editFrom rule next (cursor.advanceOver piece) 0 after).2) := by
  obtain ⟨next, index, offered⟩ := stores.writes state cursor _ after free read
  exact ⟨next, index, editFrom_replace nonempty offered⟩

end Stores

end LatexMarkdown.Scan
