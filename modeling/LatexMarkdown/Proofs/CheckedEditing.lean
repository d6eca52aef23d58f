import LatexMarkdown.Proofs.CheckedDefinition

/-!
# Checked edits

Grouped declarations and inline math are edited while a scan walks over the bytes of a text:
what lies between two edits is copied by a slice. The walk commits no fault and writes what the
edit from left to right writes.
-/

namespace LatexMarkdown.Scan

open Checked Text

variable {σ : Type}

/-! ## Writing while a text is scanned -/

/-- What has been written, and the offset from which on the text is still to be copied. -/
structure Writing (σ : Type) where
  state : σ
  written : Text
  copied : Nat

namespace Writing

/-- Copy the text up to an index and write a replacement for what stands from there to a stop. -/
def replace (text : Text) (writing : Writing σ) (index : Nat) (state : σ) (replacement : Text)
    (stop : Nat) : Checked (Writing σ) := do
  let kept ← slice text writing.copied index
  pure ⟨state, writing.written ++ kept ++ replacement, stop⟩

/-- Copy the rest of the text. -/
def finish (text : Text) (writing : Writing σ) : Checked (σ × Text) := do
  let kept ← sliceFrom text writing.copied
  pure (writing.state, writing.written ++ kept)

theorem replace_eq {text front kept behind : Text} (split : text = front ++ kept ++ behind)
    (old state : σ) (written replacement : Text) (stop : Nat) :
    replace text ⟨old, written, utf8Length front⟩ (utf8Length (front ++ kept)) state replacement
      stop = sound (some ⟨state, written ++ kept ++ replacement, stop⟩) := by
  rw [replace, slice_of_split split]
  rfl

theorem finish_eq {text front kept : Text} (split : text = front ++ kept) (state : σ)
    (written : Text) :
    finish text ⟨state, written, utf8Length front⟩ = sound (some (state, written ++ kept)) := by
  rw [finish, sliceFrom_of_split split]
  rfl

end Writing

/-- What an edit from a position on writes, behind what is written and kept already. -/
def editBehind (rule : Rule σ) (state : σ) (cursor : Cursor) (suffix written kept : Text) :
    σ × Text :=
  (editFrom rule state cursor 0 suffix).map id fun later => written ++ (kept ++ later)

theorem editBehind_nil (rule : Rule σ) (state : σ) (cursor : Cursor) (written kept : Text) :
    editBehind rule state cursor [] written kept = (state, written ++ kept) := by
  rw [editBehind, editFrom_nil, Prod.map_apply, id_eq, List.append_nil]

theorem editBehind_keep {rule : Rule σ} {state next : σ} {cursor : Cursor} {c : Char} {rest : Text}
    (silent : rule state cursor (c :: rest) = (next, none)) (written kept : Text) :
    editBehind rule state cursor (c :: rest) written kept =
      editBehind rule next (cursor.advance c) rest written (kept ++ [c]) := by
  rw [editBehind, editFrom_keep silent, editBehind, Prod.map_apply]
  simp only [Prod.map, List.append_assoc, List.singleton_append]

theorem editBehind_replace {rule : Rule σ} {state next : σ} {cursor : Cursor}
    {matched rest replacement : Text} (nonempty : matched ≠ [])
    (offered : rule state cursor (matched ++ rest) =
      (next, some (Edit.upTo (matched ++ rest) rest replacement))) (written kept : Text) :
    editBehind rule state cursor (matched ++ rest) written kept =
      editBehind rule next (cursor.advanceOver matched) rest (written ++ kept ++ replacement)
        [] := by
  rw [editBehind, editFrom_replace nonempty offered, editBehind, Prod.map_apply]
  simp only [Prod.map, List.append_assoc, List.nil_append]

section Follow

/-- At a character that is not escaped, a step does what a rule says: it passes over the
character, it declines to edit what starts there, or it writes a replacement for what the rule
has matched. -/
inductive Follows (rule : Rule σ)
    (step : Writing σ → Nat → Char → Checked (Move (Writing σ) (σ × Text))) (front kept : Text)
    (c : Char) (rest : Text) (cursor : Cursor) (state : σ) (written : Text) : Prop
  | passes (silent : rule state cursor (c :: rest) = (state, none))
      (steps : c.toNat < 128 →
        step ⟨state, written, utf8Length front⟩ (utf8Length (front ++ kept)) c =
          sound (some (.jump ⟨state, written, utf8Length front⟩ (utf8Length (front ++ kept) + 1))))
  | declines (next : σ) (ascii : c.toNat < 128)
      (silent : rule state cursor (c :: rest) = (next, none))
      (steps : step ⟨state, written, utf8Length front⟩ (utf8Length (front ++ kept)) c =
        sound (some (.jump ⟨next, written, utf8Length front⟩ (utf8Length (front ++ kept) + 1))))
  | replaces (next : σ) (ascii : c.toNat < 128) (matched after replacement : Text)
      (split : c :: rest = matched ++ after) (filled : matched ≠ [])
      (closed : escapesAfter false matched = false)
      (offered : rule state cursor (matched ++ after) =
        (next, some (Edit.upTo (matched ++ after) after replacement)))
      (steps : step ⟨state, written, utf8Length front⟩ (utf8Length (front ++ kept)) c =
        sound (some (.jump
          ⟨next, written ++ kept ++ replacement, utf8Length (front ++ kept ++ matched)⟩
          (utf8Length (front ++ kept ++ matched)))))

/-- A walk whose steps follow a rule writes what the edit by the rule writes. -/
theorem walk_follows {rule : Rule σ}
    {step : Writing σ → Nat → Char → Checked (Move (Writing σ) (σ × Text))}
    {finish : Writing σ → Checked (σ × Text)} {text : Text} (calm : IsCalm step)
    (escapes : ∀ writing index, step writing index '\\' = sound (some (.jump writing (index + 2))))
    (silent : ∀ state cursor c rest, cursor.escaped = true ∨ c = '\\' →
      rule state cursor (c :: rest) = (state, none))
    (finishes : ∀ state written front kept, text = front ++ kept →
      finish ⟨state, written, utf8Length front⟩ = sound (some (state, written ++ kept)))
    (follows : ∀ front kept c rest cursor state written, text = front ++ kept ++ c :: rest →
      cursor.escaped = false → c ≠ '\\' → Follows rule step front kept c rest cursor state written)
    (front kept : Text) {suffix : Text} (split : text = front ++ kept ++ suffix)
    (cursor : Cursor) (free : cursor.escaped = false) (state : σ) (written : Text) :
    walk text step finish ⟨state, written, utf8Length front⟩ (utf8Length (front ++ kept)) =
      sound (some (editBehind rule state cursor suffix written kept)) := by
  induction length : suffix.length using Nat.strong_induction_on
    generalizing front kept suffix cursor state written with
  | _ length inductionHypothesis =>
  subst length
  match suffix with
  | [] =>
    rw [walk_end split, finishes _ _ _ _ (split.trans (List.append_nil _)), editBehind_nil]
  | c :: rest =>
    have further : text = front ++ (kept ++ [c]) ++ rest := by rw [split]; simp
    have keptMore : front ++ kept ++ [c] = front ++ (kept ++ [c]) := List.append_assoc ..
    by_cases backslash : c = '\\'
    · subst backslash
      rw [editBehind_keep (silent state cursor _ rest (.inr rfl))]
      match rest with
      | [] =>
        rw [List.append_nil] at further
        rw [walk_beyond split (by decide) (escapes _ _), finishes _ _ _ _ further, editBehind_nil]
      | d :: others =>
        have escaped : (cursor.advance '\\').escaped = true := by
          rw [Cursor.advance, free]
          rfl
        have passed : ((cursor.advance '\\').advance d).escaped = false :=
          (congrArg (escapesNext · d) escaped).trans (escapesNext_true d)
        have behind : text = front ++ (kept ++ ['\\'] ++ [d]) ++ others := by rw [split]; simp
        have shorter : others.length < ('\\' :: d :: others).length :=
          Nat.lt_add_of_pos_right (by decide : 0 < 2)
        rw [editBehind_keep (silent state _ d others (.inl escaped)),
          ← inductionHypothesis _ shorter _ _ behind _ passed state written rfl,
          walk_over calm split (by decide) (escapes _ _)]
        simp only [List.append_assoc, List.singleton_append]
    have unescaped : (cursor.advance c).escaped = false := escapesNext_of_ne backslash _
    cases follows front kept c rest cursor state written split free backslash with
    | passes unmatched steps =>
      rw [editBehind_keep unmatched,
        ← inductionHypothesis _ (Nat.lt_succ_self _) _ _ further _ unescaped state written rfl,
        walk_pass calm split steps, keptMore]
    | declines next ascii unmatched steps =>
      rw [editBehind_keep unmatched,
        ← inductionHypothesis _ (Nat.lt_succ_self _) _ _ further _ unescaped next written rfl,
        walk_next split ascii steps, keptMore]
    | replaces next ascii matched after replacement whole filled closed offered steps =>
      have behind : text = front ++ kept ++ matched ++ [] ++ after := by
        rw [split, whole]
        simp
      have moves := utf8Length_lt_append (front ++ kept) filled
      have shorter : after.length < (c :: rest).length := by
        have wide := List.length_pos_of_ne_nil filled
        rw [whole, List.length_append]
        omega
      have passed : (cursor.advanceOver matched).escaped = false := by
        rw [Cursor.advanceOver_escaped_eq, free, closed]
      have later := inductionHypothesis _ shorter _ _ behind _ passed next
        (written ++ kept ++ replacement) rfl
      rw [List.append_nil] at later
      rw [whole, editBehind_replace filled offered, ← later, walk_jump split ascii steps moves]

end Follow

/-! ## Declarations in groups -/

/-- Scan the declaration in the group at an offset: its name and the rest of the group. -/
def walkDeclaration (text : Text) (index : Nat) : Checked (Declaration × Nat) := do
  let start := skipGapAt text (index + 1)
  let suffix ← sliceFrom text start
  if suffix.head? = some '\\' then do
    let behind ← sliceFrom text (start + 1)
    let width := byteRun Char.isAlpha behind
    if 0 < width then do
      let (_, stop) ← walkBraced text index
      let last ← decrement stop
      let rest ← slice text (start + 1 + width) last
      let name ← slice text (start + 1) (start + 1 + width)
      pure (⟨name, rest⟩, stop)
    else failure
  else failure

theorem takeWhile_isAlpha_eq_nil_iff {text : Text} :
    text.takeWhile Char.isAlpha = [] ↔ startsWithLetter text = false := by
  cases text with
  | nil => exact iff_of_true rfl rfl
  | cons c rest => simp [startsWithLetter, List.takeWhile_cons]

/-- The name of a declaration and the rest of its group are slices up to the closing brace. -/
theorem slices_of_declaration {text front name rest after : Text}
    (split : text = front ++ '\\' :: (name ++ rest) ++ '}' :: after) :
    slice text (utf8Length front + 1) (utf8Length front + 1 + utf8Length name) =
        sound (some name) ∧
      slice text (utf8Length front + 1 + utf8Length name)
        (utf8Length (front ++ '\\' :: (name ++ rest))) = sound (some rest) := by
  have start := utf8Length_concat front '\\'
  change _ = utf8Length front + 1 at start
  have nameSplit : text = front ++ ['\\'] ++ name ++ (rest ++ '}' :: after) := by
    rw [split]
    simp
  have restSplit : text = front ++ ['\\'] ++ name ++ rest ++ '}' :: after := by
    rw [split]
    simp
  have nameSlice := slice_of_split nameSplit
  have restSlice := slice_of_split restSplit
  have whole : front ++ ['\\'] ++ name ++ rest = front ++ '\\' :: (name ++ rest) := by simp
  rw [utf8Length_append _ name, start] at nameSlice restSlice
  rw [whole] at restSlice
  exact ⟨nameSlice, restSlice⟩

/-- What stands in front of a closing brace and behind a backslash is a name of letters and the
rest, both of them slices. -/
theorem slices_of_content {text before front content after : Text}
    (closed : text = before ++ '}' :: after)
    (named : text = front ++ '\\' :: (content ++ '}' :: after)) :
    slice text (utf8Length front + 1)
        (utf8Length front + 1 + utf8Length (content.takeWhile Char.isAlpha)) =
          sound (some (content.takeWhile Char.isAlpha)) ∧
      slice text (utf8Length front + 1 + utf8Length (content.takeWhile Char.isAlpha))
        (utf8Length before) = sound (some (content.dropWhile Char.isAlpha)) := by
  rw [← append_cons_append] at named
  have same : front ++ '\\' :: content = before :=
    List.append_cancel_right (named.symm.trans closed)
  have whole : content.takeWhile Char.isAlpha ++ content.dropWhile Char.isAlpha = content :=
    List.takeWhile_append_dropWhile
  rw [← whole] at named
  have slices := slices_of_declaration named
  rwa [whole, same] at slices

/-- The letters at the start of what stands in front of a closing brace end before the brace. -/
theorem takeWhile_isAlpha_append (content after : Text) :
    (content ++ '}' :: after).takeWhile Char.isAlpha = content.takeWhile Char.isAlpha := by
  have ends : startsWithLetter (content.dropWhile Char.isAlpha ++ '}' :: after) = false := by
    have unlettered := startsWithLetter_dropWhile content
    cases behind : content.dropWhile Char.isAlpha with
    | nil => rfl
    | cons c more =>
      rw [behind] at unlettered
      exact unlettered
  have letters : ∀ c ∈ content.takeWhile Char.isAlpha, c.isAlpha = true :=
    fun _ => List.mem_takeWhile_imp
  have spanned := (span_letters letters ends).1
  rwa [← List.append_assoc, List.takeWhile_append_dropWhile] at spanned

theorem walkDeclaration_eq {text before inside : Text} (split : text = before ++ '{' :: inside) :
    walkDeclaration text (utf8Length before) =
      sound (located text (readDeclaration ('{' :: inside))) := by
  have behindBrace : text = before ++ ['{'] ++ inside := by rw [split, List.append_cons]
  obtain ⟨front, behindGap, reached⟩ := exists_skipGapAt behindBrace
  rw [utf8Length_concat] at reached
  change skipGapAt text (utf8Length before + 1) = _ at reached
  simp only [walkDeclaration, reached, sliceFrom_of_split behindGap, sound_some_bind,
    readDeclaration, if_true]
  cases skipped : skipGap inside with
  | nil => rfl
  | cons first name =>
    rw [skipped] at behindGap
    by_cases backslash : first = '\\'
    · subst backslash
      have width := byteRun_eq (fun c => toNat_lt_of_isAlpha) name
      simp only [List.head?_cons, if_true, sliceFrom_cons behindGap (by decide : '\\'.toNat < 128),
        sound_some_bind, width, decide_true, Bool.true_and]
      cases letter : startsWithLetter name with
      | false =>
        rw [takeWhile_isAlpha_eq_nil_iff.mpr letter, utf8Length, if_neg (Nat.lt_irrefl 0),
          if_neg Bool.false_ne_true]
        rfl
      | true =>
        have named : name.takeWhile Char.isAlpha ≠ [] := fun empty => by
          rw [takeWhile_isAlpha_eq_nil_iff.mp empty] at letter
          cases letter
        rw [if_pos (utf8Length_pos named), if_pos rfl, walkBraced_eq split]
        cases group : readBraced ('{' :: inside) with
        | none => rfl
        | some pair =>
          obtain ⟨inner, after⟩ := pair
          obtain rfl := (List.cons.inj (readBraced_eq_append group)).2
          rw [skipGap_closing] at skipped
          cases opened : skipGap inner with
          | nil =>
            rw [opened] at skipped
            cases skipped
          | cons c content =>
            rw [opened, List.cons_append, List.cons.injEq] at skipped
            obtain ⟨rfl, rfl⟩ := skipped
            have closed : text = before ++ '{' :: inner ++ '}' :: after := by
              rw [split, append_cons_append]
            obtain ⟨nameSlice, restSlice⟩ := slices_of_content closed behindGap
            simp only [takeWhile_isAlpha_append, located, Option.map_some,
              offsetOf_cons closed (by decide : '}'.toNat < 128), sound_some_bind, decrement_succ,
              nameSlice, restSlice, Option.bind_eq_bind, Option.bind_some, opened, List.tail_cons,
              pure_eq_sound]
    · have other : ¬ some first = some '\\' := by simpa using backslash
      rw [List.head?_cons, if_neg other]
      simp only [decide_eq_false backslash, Bool.false_and, if_neg Bool.false_ne_true]
      rfl

/-- A step of the edit of declarations; `nested` edits the rest of a group. -/
def declarationStep (nested : σ → Text → Checked (σ × Text)) (respond : Answer σ Declaration)
    (text : Text) (writing : Writing σ) (index : Nat) (byte : Char) :
    Checked (Move (Writing σ) (σ × Text)) :=
  if byte = '\\' then pure (.jump writing (index + 2))
  else if byte = '{' then do
    match ← attempt (walkDeclaration text index) with
    | none => pure (.jump writing (index + 1))
    | some (declaration, stop) => do
      let (state, rest) ← nested writing.state declaration.rest
      match respond state ⟨declaration.name, rest⟩ with
      | (state, some replacement) => do
        let writing ← writing.replace text index state replacement stop
        pure (.jump writing stop)
      | (state, none) => pure (.jump { writing with state } (index + 1))
  else pure (.jump writing (index + 1))

/-- Walk over a text and edit grouped declarations down to a nesting depth. -/
def walkDeclarationsAt (respond : Answer σ Declaration) :
    (depth : Nat) → σ → Text → Checked (σ × Text)
  | 0, _, _ => fail .stuck
  | depth + 1, state, text =>
    walk text (declarationStep (walkDeclarationsAt respond depth) respond text)
      (Writing.finish text) ⟨state, [], 0⟩ 0

/-- Walk over a text and edit every grouped declaration. -/
def walkDeclarations (respond : Answer σ Declaration) (state : σ) (text : Text) :
    Checked (σ × Text) :=
  walkDeclarationsAt respond (text.length + 1) state text

section Declarations

variable {nested : σ → Text → Checked (σ × Text)} {respond : Answer σ Declaration} {text : Text}

theorem isCalm_declarationStep : IsCalm (declarationStep nested respond text) := by
  intro writing index byte wide
  rw [declarationStep, if_neg (ne_of_wide wide (by decide)), if_neg (ne_of_wide wide (by decide))]

theorem declarationRule_silent {edited : σ → Text → σ × Text} {cursor : Cursor} {c : Char}
    (unopened : cursor.escaped = true ∨ c ≠ '{') (state : σ) (rest : Text) :
    declarationRule edited respond state cursor (c :: rest) = (state, none) := by
  rw [declarationRule]
  rcases unopened with escaped | other
  · rw [if_pos escaped]
  · have unread : readDeclaration (c :: rest) = none := by rw [readDeclaration, if_neg other]
    rw [unread, ite_self]

/-- What a declaration acts on is shorter than the text. -/
theorem length_rest_lt {before rest after : Text} {declaration : Declaration}
    (split : text = before ++ '{' :: rest)
    (read : readDeclaration ('{' :: rest) = some (declaration, after)) :
    declaration.rest.length < text.length := by
  obtain ⟨-, gap, -, group⟩ := readDeclaration_iff.mp read
  rw [split, readBraced_eq_append group]
  simp only [List.length_append, List.length_cons]
  omega

theorem followsDeclaration
    (nestedSound : ∀ state piece, piece.length < text.length →
      nested state piece = sound (some (editDeclaration respond state piece)))
    {front kept rest : Text} {c : Char} (split : text = front ++ kept ++ c :: rest)
    {cursor : Cursor} (free : cursor.escaped = false) (unescaped : c ≠ '\\') (state : σ)
    (written : Text) :
    Follows (declarationRule (editDeclaration respond) respond)
      (declarationStep nested respond text) front kept c rest cursor state written := by
  by_cases opening : c = '{'
  · subst opening
    have opened := walkDeclaration_eq split
    cases read : readDeclaration ('{' :: rest) with
    | none =>
      refine .passes ?_ fun _ => ?_
      · rw [declarationRule, read, ite_self]
      · rw [declarationStep, if_neg unescaped, if_pos rfl, opened, read]
        rfl
    | some pair =>
      obtain ⟨declaration, after⟩ := pair
      have edited := nestedSound state declaration.rest (length_rest_lt split read)
      obtain ⟨matched, whole, isDeclaration⟩ := exists_isDeclaration free read
      have behind : text = front ++ kept ++ matched ++ after := by
        rw [split, whole, ← List.append_assoc]
      rcases responded : respond (editDeclaration respond state declaration.rest).1
        ⟨declaration.name, (editDeclaration respond state declaration.rest).2⟩ with
        ⟨next, none | replacement⟩
      · refine .declines next (by decide) ?_ ?_
        · rw [declarationRule, free, if_neg Bool.false_ne_true, read]
          simp only [responded, Option.map_none]
        · rw [declarationStep, if_neg unescaped, if_pos rfl, opened, read]
          simp only [located, Option.map_some, attempt_sound, sound_some_bind, edited, responded,
            pure_eq_sound]
      · refine .replaces next (by decide) matched after replacement whole isDeclaration.ne_nil
          ?_ ?_ ?_
        · obtain ⟨gap, -, spelled, -⟩ := isDeclaration.spelled
          rw [spelled]
          exact escapesAfter_concat (by decide) _ _
        · rw [← whole, declarationRule, free, if_neg Bool.false_ne_true, read]
          simp only [responded, Option.map_some]
        · rw [declarationStep, if_neg unescaped, if_pos rfl, opened, read]
          simp only [located, Option.map_some, offsetOf_append behind, attempt_sound,
            sound_some_bind, edited, responded, Writing.replace_eq split, pure_eq_sound]
  · refine .passes (declarationRule_silent (.inr opening) state rest) fun _ => ?_
    rw [declarationStep, if_neg unescaped, if_neg opening, pure_eq_sound]

theorem walkDeclarationsAt_eq {depth : Nat} {text : Text} (bounded : text.length < depth)
    (state : σ) :
    walkDeclarationsAt respond depth state text =
      sound (some (editDeclaration respond state text)) := by
  induction depth generalizing text state with
  | zero => exact absurd bounded (Nat.not_lt_zero _)
  | succ depth inductionHypothesis =>
    have silent (state : σ) (cursor : Cursor) (c : Char) (rest : Text)
        (unread : cursor.escaped = true ∨ c = '\\') :
        declarationRule (editDeclaration respond) respond state cursor (c :: rest) =
          (state, none) :=
      declarationRule_silent (unread.imp_right fun backslash => backslash ▸ by decide) state rest
    have nestedSound (state : σ) (piece : Text) (shorter : piece.length < text.length) :
        walkDeclarationsAt respond depth state piece =
          sound (some (editDeclaration respond state piece)) :=
      inductionHypothesis (Nat.lt_of_lt_of_le shorter (Nat.le_of_lt_succ bounded)) state
    rw [editDeclaration_eq]
    exact walk_follows isCalm_declarationStep (fun _ _ => rfl) silent
      (fun state written _ _ split => Writing.finish_eq split state written)
      (fun _ _ _ _ _ state written split free unescaped =>
        followsDeclaration nestedSound split free unescaped state written)
      [] [] rfl Cursor.start rfl state []

theorem walkDeclarations_eq (respond : Answer σ Declaration) (state : σ) (text : Text) :
    walkDeclarations respond state text = sound (some (editDeclaration respond state text)) :=
  walkDeclarationsAt_eq (Nat.lt_succ_self _) state

end Declarations

/-! ## Inline math -/

/-- A step of the search for the dollar that closes inline math. -/
def closingDollarStep (text : Text) (_ : Unit) (index : Nat) (byte : Char) :
    Checked (Move Unit Nat) :=
  if byte = '\\' then pure (.jump () (index + 2))
  else if byte = '$' then pure (.stop index)
  else if byte = '\n' then do
    let rest ← sliceFrom text (index + 1)
    if startsBlankLine rest then failure else pure (.jump () (index + 1))
  else pure (.jump () (index + 1))

/-- The offset of the dollar that closes the inline math whose inside starts at an offset. -/
def walkClosingDollar (text : Text) (start : Nat) : Checked Nat :=
  walk text (closingDollarStep text) (fun _ => failure) () start

theorem walkClosingDollar_eq {text before suffix : Text} (split : text = before ++ suffix) :
    walkClosingDollar text (utf8Length before) =
      sound ((readDollars false suffix).map fun (body, _) => utf8Length (before ++ body)) := by
  have calm : IsCalm (closingDollarStep text) := fun _ _ _ wide => by
    rw [closingDollarStep, if_neg (ne_of_wide wide (by decide)),
      if_neg (ne_of_wide wide (by decide)), if_neg (ne_of_wide wide (by decide))]
  have kept (c : Char) (found : Option (Text × Text)) (before : Text) :
      (found.map fun (body, _) => utf8Length (before ++ [c] ++ body)) =
        (keepFirst c found).map fun (body, _) => utf8Length (before ++ body) := by
    cases found <;> simp [keepFirst]
  unfold walkClosingDollar
  induction suffix using escape_induction generalizing before with
  | nil => exact walk_end split
  | dangling => exact walk_beyond split (by decide) rfl
  | escape c rest inductionHypothesis =>
    have further : text = before ++ ['\\'] ++ [c] ++ rest := by rw [split]; simp
    rw [walk_over calm split (by decide) rfl, List.append_cons, inductionHypothesis further]
    simp only [readDollars, if_true, kept]
  | char c rest unescaped inductionHypothesis =>
    have further : text = before ++ [c] ++ rest := by rw [split, List.append_cons]
    by_cases closing : c = '$'
    · subst closing
      rw [walk_stop (some (utf8Length before)) split (by decide) rfl]
      simp only [readDollars, if_neg unescaped, if_true, Option.map_some, List.append_nil]
    by_cases breaks : c = '\n'
    · subst breaks
      have steps : closingDollarStep text () (utf8Length before) '\n' =
          if startsBlankLine rest then sound none
            else sound (some (.jump () (utf8Length before + 1))) := by
        rw [closingDollarStep, if_neg unescaped, if_neg closing, if_pos rfl,
          sliceFrom_cons split (by decide)]
        rfl
      simp only [readDollars, if_neg unescaped, if_neg closing, decide_true, Bool.true_and]
      cases blank : startsBlankLine rest with
      | true =>
        rw [blank] at steps
        exact walk_stop none split (by decide) steps
      | false =>
        rw [blank] at steps
        rw [walk_next split (by decide) steps, inductionHypothesis further, kept]
        rfl
    · have passes : closingDollarStep text () (utf8Length before) c =
          sound (some (.jump () (utf8Length before + 1))) := by
        rw [closingDollarStep, if_neg unescaped, if_neg closing, if_neg breaks, pure_eq_sound]
      rw [walk_char calm split passes, inductionHypothesis further, kept]
      simp only [readDollars, if_neg unescaped, if_neg closing, decide_eq_false breaks,
        Bool.false_and, Bool.false_eq_true, if_false]

/-- A step of the edit of inline math. -/
def dollarsStep (respond : σ → Text → σ × Text) (text : Text) (writing : Writing σ) (index : Nat)
    (byte : Char) : Checked (Move (Writing σ) (σ × Text)) :=
  if byte = '\\' then pure (.jump writing (index + 2))
  else if byte = '$' then do
    match ← attempt (walkClosingDollar text (index + 1)) with
    | none => pure (.jump writing (index + 1))
    | some stop =>
      if index + 1 < stop then do
        let body ← slice text (index + 1) stop
        let (state, replacement) := respond writing.state body
        let writing ← writing.replace text index state replacement (stop + 1)
        pure (.jump writing (stop + 1))
      else pure (.jump writing (index + 1))
  else pure (.jump writing (index + 1))

/-- Walk over a text and edit all inline math. -/
def walkDollars (respond : σ → Text → σ × Text) (state : σ) (text : Text) : Checked (σ × Text) :=
  walk text (dollarsStep respond text)
    (fun writing => Writing.finish text
      { writing with copied := min writing.copied (utf8Length text) }) ⟨state, [], 0⟩ 0

section Dollars

variable {respond : σ → Text → σ × Text} {text : Text}

theorem isCalm_dollarsStep : IsCalm (dollarsStep respond text) := by
  intro writing index byte wide
  rw [dollarsStep, if_neg (ne_of_wide wide (by decide)), if_neg (ne_of_wide wide (by decide))]

/-- Between two dollars the inside is a slice, and behind it one more byte is passed. -/
theorem slice_of_dollars {front body after : Text}
    (split : text = front ++ ('$' :: (body ++ '$' :: after))) :
    slice text (utf8Length front + 1) (utf8Length (front ++ ['$'] ++ body)) =
        sound (some body) ∧
      utf8Length (front ++ ['$'] ++ body) + 1 = utf8Length (front ++ ('$' :: body ++ ['$'])) := by
  have inside : text = front ++ ['$'] ++ body ++ '$' :: after := by rw [split]; simp
  have sliced := slice_of_split inside
  rw [utf8Length_concat] at sliced
  have whole : front ++ ('$' :: body ++ ['$']) = front ++ ['$'] ++ body ++ ['$'] := by simp
  rw [whole, utf8Length_concat _ '$']
  exact ⟨sliced, rfl⟩

theorem followsDollars {front kept rest : Text} {c : Char}
    (split : text = front ++ kept ++ c :: rest) {cursor : Cursor} (free : cursor.escaped = false)
    (unescaped : c ≠ '\\') (state : σ) (written : Text) :
    Follows (dollarsRule respond) (dollarsStep respond text) front kept c rest cursor state
      written := by
  by_cases opening : c = '$'
  · subst opening
    have inside : text = front ++ kept ++ ['$'] ++ rest := by rw [split, List.append_cons]
    have start : utf8Length (front ++ kept ++ ['$']) = utf8Length (front ++ kept) + 1 :=
      utf8Length_concat _ _
    have closing := walkClosingDollar_eq inside
    rw [start] at closing
    have opens : ¬ (cursor.escaped || decide ('$' ≠ '$')) = true := by simp [free]
    cases read : readDollars false rest with
    | none =>
      refine .passes ?_ fun _ => ?_
      · rw [dollarsRule, if_neg opens, read]
      · rw [dollarsStep, if_neg unescaped, if_pos rfl, closing, read]
        rfl
    | some pair =>
      obtain ⟨body, after⟩ := pair
      cases body with
      | nil =>
        have empty : ¬ utf8Length (front ++ kept) + 1 <
            utf8Length (front ++ kept ++ ['$'] ++ []) := by
          rw [List.append_nil, start]
          exact Nat.lt_irrefl _
        refine .passes ?_ fun _ => ?_
        · rw [dollarsRule, if_neg opens, read]
        · rw [dollarsStep, if_neg unescaped, if_pos rfl, closing, read, Option.map_some,
            attempt_sound, sound_some_bind]
          exact if_neg empty
      | cons first others =>
        have ends := readDollars_eq_append read
        have filled : utf8Length (front ++ kept) + 1 <
            utf8Length (front ++ kept ++ ['$'] ++ first :: others) := by
          rw [← start]
          exact utf8Length_lt_append _ (List.cons_ne_nil first others)
        rw [ends] at split
        obtain ⟨body, stop⟩ := slice_of_dollars split
        refine .replaces (respond state (first :: others)).1 (by decide)
          ('$' :: (first :: others) ++ ['$']) after (respond state (first :: others)).2 ?_
          (List.cons_ne_nil _ _) (escapesAfter_concat (by decide) _ _) ?_ ?_
        · rw [ends]
          simp
        · rw [List.append_assoc, List.cons_append, List.singleton_append, ← ends, dollarsRule,
            if_neg opens, read]
        · simp only [dollarsStep, if_neg unescaped, if_true, closing, read, Option.map_some,
            attempt_sound, sound_some_bind, if_pos filled, body, stop, Writing.replace_eq split,
            pure_eq_sound]
  · refine .passes (dollarsRule_silent (.inr opening) state rest) fun _ => ?_
    rw [dollarsStep, if_neg unescaped, if_neg opening, pure_eq_sound]

theorem walkDollars_eq (respond : σ → Text → σ × Text) (state : σ) (text : Text) :
    walkDollars respond state text = sound (some (editDollars respond state text)) := by
  have silent (state : σ) (cursor : Cursor) (c : Char) (rest : Text)
      (unread : cursor.escaped = true ∨ c = '\\') :
      dollarsRule respond state cursor (c :: rest) = (state, none) :=
    dollarsRule_silent (unread.imp_right fun backslash => backslash ▸ by decide) state rest
  have finishes (state : σ) (written front kept : Text) (split : text = front ++ kept) :
      Writing.finish text ⟨state, written, min (utf8Length front) (utf8Length text)⟩ =
        sound (some (state, written ++ kept)) := by
    have within : utf8Length front ≤ utf8Length text := by
      rw [split]
      exact utf8Length_le_append front kept
    rw [Nat.min_eq_left within, Writing.finish_eq split]
  exact walk_follows isCalm_dollarsStep (fun _ _ => rfl) silent finishes
    (fun _ _ _ _ _ state written split free unescaped =>
      followsDollars split free unescaped state written)
    [] [] rfl Cursor.start rfl state []

end Dollars

end LatexMarkdown.Scan
