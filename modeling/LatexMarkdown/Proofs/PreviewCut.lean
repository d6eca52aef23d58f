import LatexMarkdown.Fragment.Preview
import LatexMarkdown.Proofs.Layout
import LatexMarkdown.Proofs.Token

/-!
# Where a preview is cut

The tokens of a text are found from left to right, so that each has its place and no two
places overlap. A front of a text spares the tokens if it holds each of them as a whole or
not at all. A preview that cuts something off shows the longest such front within its
limit, up to the blanks at its end.
-/

namespace LatexMarkdown.Fragment

/-! ## The places of tokens -/

/-- A piece of text that is a token, whatever number its digits spell. -/
def IsToken (piece : Text) : Prop :=
  ∃ digits, digits ≠ [] ∧ (∀ c ∈ digits, Text.isDecimal c = true) ∧
    piece = tokenOpening ++ (digits ++ tokenClosing)

/-- Where a token stands: how many characters are before it, and how many up to its end. -/
structure Place where
  start : Nat
  stop : Nat
  deriving DecidableEq, Repr

/-- A text that starts at a position has its tokens at some places, found from left to right:
where a token starts, the next one is looked for behind it. -/
inductive HasTokens : (position : Nat) → Text → List Place → Prop
  | done {position : Nat} : HasTokens position [] []
  | char {position : Nat} {c : Char} {rest : Text} {places : List Place}
      (unstarted : ∀ piece, IsToken piece → ¬ piece <+: c :: rest)
      (more : HasTokens (position + 1) rest places) : HasTokens position (c :: rest) places
  | token {position : Nat} {piece rest : Text} {places : List Place} (isToken : IsToken piece)
      (more : HasTokens (position + piece.length) rest places) :
      HasTokens position (piece ++ rest) (⟨position, position + piece.length⟩ :: places)

/-- The first `count` characters hold every token as a whole or not at all. -/
def SparesTokens (text : Text) (count : Nat) : Prop :=
  ∀ places, HasTokens 0 text places →
    ∀ place ∈ places, place.stop ≤ count ∨ count ≤ place.start

theorem IsToken.ne_nil {piece : Text} (isToken : IsToken piece) : piece ≠ [] := by
  obtain ⟨digits, -, -, rfl⟩ := isToken
  simp [tokenOpening_eq]

/-- A token ends in a character that is not blank. -/
theorem IsToken.getLast? {piece : Text} (isToken : IsToken piece) : piece.getLast? = some '@' := by
  obtain ⟨digits, -, -, rfl⟩ := isToken
  simp [tokenClosing_eq, List.getLast?_append]

theorem IsToken.exists_readToken {piece : Text} (isToken : IsToken piece) (rest : Text) :
    ∃ digits, readToken (piece ++ rest) = some (digits, rest) := by
  obtain ⟨digits, nonempty, decimal, rfl⟩ := isToken
  exact ⟨digits, readToken_eq_some_iff.mpr ⟨nonempty, decimal, by simp⟩⟩

/-- What is read as a token is one. -/
theorem exists_isToken_of_read {text digits rest : Text}
    (read : readToken text = some (digits, rest)) :
    ∃ piece, IsToken piece ∧ text = piece ++ rest := by
  obtain ⟨nonempty, decimal, split⟩ := readToken_eq_some_iff.mp read
  exact ⟨_, ⟨digits, nonempty, decimal, rfl⟩, by rw [split]; simp⟩

/-- Nothing is read exactly where no token starts. -/
theorem readToken_eq_none_iff {text : Text} :
    readToken text = none ↔ ∀ piece, IsToken piece → ¬ piece <+: text := by
  constructor
  · rintro unread piece isToken ⟨rest, rfl⟩
    obtain ⟨digits, read⟩ := isToken.exists_readToken rest
    rw [unread] at read
    cases read
  · intro unstarted
    refine Option.eq_none_iff_forall_ne_some.mpr fun (digits, rest) read => ?_
    obtain ⟨piece, isToken, rfl⟩ := exists_isToken_of_read read
    exact unstarted piece isToken (List.prefix_append piece rest)

/-- Two tokens that start at the same position are the same. -/
theorem IsToken.append_inj {piece other rest behind : Text} (isToken : IsToken piece)
    (isOther : IsToken other) (same : piece ++ rest = other ++ behind) :
    piece = other ∧ rest = behind := by
  obtain ⟨digits, read⟩ := isToken.exists_readToken rest
  obtain ⟨others, readOther⟩ := isOther.exists_readToken behind
  rw [same, readOther, Option.some.injEq, Prod.mk.injEq] at read
  obtain ⟨-, rfl⟩ := read
  exact ⟨List.append_cancel_right same, rfl⟩

/-- Every text has its tokens at some places. -/
theorem exists_hasTokens (position : Nat) (text : Text) :
    ∃ places, HasTokens position text places := by
  induction size : text.length using Nat.strong_induction_on generalizing position text with
  | _ size inductionHypothesis =>
  subst size
  cases text with
  | nil => exact ⟨[], .done⟩
  | cons c rest =>
    cases read : readToken (c :: rest) with
    | none =>
      obtain ⟨places, more⟩ := inductionHypothesis rest.length (Nat.lt_succ_self _) (position + 1)
        rest rfl
      exact ⟨places, .char (readToken_eq_none_iff.mp read) more⟩
    | some found =>
      obtain ⟨piece, isToken, whole⟩ := exists_isToken_of_read read
      have shorter : found.2.length < (c :: rest).length := by
        have filled := List.length_pos_of_ne_nil isToken.ne_nil
        rw [whole, List.length_append]
        omega
      obtain ⟨places, more⟩ := inductionHypothesis found.2.length shorter
        (position + piece.length) found.2 rfl
      rw [whole]
      exact ⟨_, .token isToken more⟩

namespace HasTokens

variable {position : Nat} {text : Text} {places others : List Place} {place : Place}

/-- The places of the tokens in a text are determined. -/
theorem unique (tokens : HasTokens position text places)
    (further : HasTokens position text others) : places = others := by
  induction tokens generalizing others with
  | done =>
    generalize same : ([] : Text) = text at further
    cases further with
    | done => rfl
    | char => cases same
    | token isToken => exact absurd (List.append_eq_nil_iff.mp same.symm).1 isToken.ne_nil
  | @char position c rest places unstarted more inductionHypothesis =>
    generalize same : c :: rest = text at further
    cases further with
    | done => cases same
    | char _ later =>
      obtain ⟨rfl, rfl⟩ := List.cons.inj same
      exact inductionHypothesis later
    | @token _ piece _ _ isToken =>
      exact absurd (same ▸ List.prefix_append piece _) (unstarted piece isToken)
  | @token position piece rest places isToken more inductionHypothesis =>
    generalize same : piece ++ rest = text at further
    cases further with
    | done => exact absurd (List.append_eq_nil_iff.mp same).1 isToken.ne_nil
    | char unstarted =>
      exact absurd (same ▸ List.prefix_append piece rest) (unstarted piece isToken)
    | token isOther later =>
      obtain ⟨rfl, rfl⟩ := isToken.append_inj isOther same
      rw [inductionHypothesis later]

/-- Every place is that of a token in the text. -/
theorem isToken_of_mem (tokens : HasTokens position text places) (listed : place ∈ places) :
    ∃ before piece rest, text = before ++ (piece ++ rest) ∧ IsToken piece ∧
      place.start = position + before.length ∧
      place.stop = position + before.length + piece.length := by
  induction tokens with
  | done => cases listed
  | @char position c rest places unstarted more inductionHypothesis =>
    obtain ⟨before, piece, behind, rfl, isToken, start, stop⟩ := inductionHypothesis listed
    refine ⟨c :: before, piece, behind, rfl, isToken, ?_, ?_⟩ <;> rw [List.length_cons] <;> omega
  | @token position piece rest places isToken more inductionHypothesis =>
    rcases List.mem_cons.mp listed with rfl | later
    · exact ⟨[], piece, rest, rfl, isToken, rfl, rfl⟩
    · obtain ⟨before, next, behind, rfl, isNext, start, stop⟩ := inductionHypothesis later
      refine ⟨piece ++ before, next, behind, (List.append_assoc ..).symm, isNext, ?_, ?_⟩ <;>
        rw [List.length_append] <;> omega

/-- No place is before the position that the text starts at. -/
theorem start_of_mem (tokens : HasTokens position text places) (listed : place ∈ places) :
    position ≤ place.start := by
  obtain ⟨before, _, _, _, _, start, _⟩ := tokens.isToken_of_mem listed
  exact start ▸ Nat.le_add_right ..

/-- Wherever a text spells a token, it starts at a place or inside one. -/
theorem exists_place_of_isToken {before piece rest : Text} (isToken : IsToken piece)
    (tokens : HasTokens position (before ++ (piece ++ rest)) places) :
    ∃ place ∈ places,
      place.start ≤ position + before.length ∧ position + before.length < place.stop := by
  generalize spelled : before ++ (piece ++ rest) = text at tokens
  induction tokens generalizing before with
  | done => simp [isToken.ne_nil] at spelled
  | @char position c others places unstarted more inductionHypothesis =>
    cases before with
    | nil => exact absurd (spelled ▸ List.prefix_append piece rest) (unstarted piece isToken)
    | cons d passed =>
      obtain ⟨rfl, later⟩ := List.cons.inj spelled
      rw [List.length_cons, Nat.add_comm passed.length, ← Nat.add_assoc]
      exact inductionHypothesis later
  | @token position first others places isFirst more inductionHypothesis =>
    by_cases inside : before.length < first.length
    · exact ⟨_, List.mem_cons_self, Nat.le_add_right .., Nat.add_lt_add_left inside position⟩
    · obtain ⟨passed, rfl⟩ : first <+: before :=
        List.prefix_of_prefix_length_le ⟨others, spelled.symm⟩ (List.prefix_append ..)
          (Nat.le_of_not_lt inside)
      rw [List.append_assoc, List.append_cancel_left_eq] at spelled
      obtain ⟨place, listed, reached⟩ := inductionHypothesis spelled
      rw [List.length_append, ← Nat.add_assoc]
      exact ⟨place, List.mem_cons_of_mem _ listed, reached⟩

/-- A front spares the tokens of a text if it spares those at their places. -/
theorem sparesTokens_iff (tokens : HasTokens 0 text places) {count : Nat} :
    SparesTokens text count ↔ ∀ place ∈ places, place.stop ≤ count ∨ count ≤ place.start :=
  ⟨fun spares => spares places tokens, fun spares _ others => tokens.unique others ▸ spares⟩

end HasTokens

/-! ## The longest front -/

theorem takeTokens_covered (limit : Nat) (covered rest : Text) :
    takeTokens (covered.length + limit) covered.length (covered ++ rest) =
      covered ++ takeTokens limit 0 rest := by
  induction covered with
  | nil => rw [List.length_nil, Nat.zero_add, List.nil_append, List.nil_append]
  | cons c others inductionHypothesis =>
    rw [List.length_cons, Nat.add_right_comm, List.cons_append, takeTokens, inductionHypothesis]
    rfl

/-- A character at which no token starts is taken. -/
theorem takeTokens_char {c : Char} {rest : Text}
    (unstarted : ∀ piece, IsToken piece → ¬ piece <+: c :: rest) (limit : Nat) :
    takeTokens (limit + 1) 0 (c :: rest) = c :: takeTokens limit 0 rest := by
  rw [takeTokens, readToken_eq_none_iff.mpr unstarted]

/-- A token is taken as a whole if it keeps to the limit, and ends the front if not. -/
theorem takeTokens_token {piece : Text} (isToken : IsToken piece) (limit : Nat) (rest : Text) :
    takeTokens limit 0 (piece ++ rest) =
      if limit < piece.length then [] else piece ++ takeTokens (limit - piece.length) 0 rest := by
  obtain ⟨digits, read⟩ := isToken.exists_readToken rest
  obtain ⟨c, others, rfl⟩ := List.exists_cons_of_ne_nil isToken.ne_nil
  rw [List.cons_append] at read ⊢
  have width : (c :: (others ++ rest)).length - rest.length = others.length + 1 := by
    simp only [List.length_cons, List.length_append]
    omega
  cases limit with
  | zero => simp [takeTokens]
  | succ limit =>
    simp only [takeTokens, read, width]
    rw [List.length_cons, Nat.add_sub_cancel]
    split
    · rfl
    next fits =>
      obtain ⟨left, rfl⟩ := Nat.exists_eq_add_of_le (Nat.le_of_succ_le_succ (Nat.le_of_not_lt fits))
      rw [takeTokens_covered, Nat.add_right_comm, Nat.add_sub_cancel_left, List.cons_append]

/-- What is taken of a text is a front of it. -/
theorem takeTokens_front (limit covered : Nat) (text : Text) :
    takeTokens limit covered text <+: text := by
  fun_induction takeTokens limit covered text with
  | case1 | case2 | case4 => exact List.nil_prefix
  | case3 _ _ c _ inductionHypothesis => exact List.cons_prefix_cons.mpr ⟨rfl, inductionHypothesis⟩
  | case5 _ c _ _ _ _ _ _ inductionHypothesis =>
    exact List.cons_prefix_cons.mpr ⟨rfl, inductionHypothesis⟩
  | case6 _ c _ _ inductionHypothesis => exact List.cons_prefix_cons.mpr ⟨rfl, inductionHypothesis⟩

namespace HasTokens

variable {position limit count : Nat} {text : Text} {places : List Place} {place : Place}

/-- What is taken keeps to the limit. -/
theorem length_takeTokens_le (tokens : HasTokens position text places) :
    (takeTokens limit 0 text).length ≤ limit := by
  induction tokens generalizing limit with
  | done => cases limit <;> exact Nat.zero_le _
  | char unstarted more inductionHypothesis =>
    cases limit with
    | zero => exact Nat.le_refl _
    | succ limit =>
      rw [takeTokens_char unstarted]
      exact Nat.succ_le_succ inductionHypothesis
  | @token position piece rest places isToken more inductionHypothesis =>
    rw [takeTokens_token isToken]
    split
    · exact Nat.zero_le _
    next fits =>
      have later := @inductionHypothesis (limit - piece.length)
      rw [List.length_append]
      omega

/-- What is taken cuts no token. -/
theorem takeTokens_spares (tokens : HasTokens position text places) (listed : place ∈ places) :
    place.stop ≤ position + (takeTokens limit 0 text).length ∨
      position + (takeTokens limit 0 text).length ≤ place.start := by
  induction tokens generalizing limit with
  | done => cases listed
  | char unstarted more inductionHypothesis =>
    cases limit with
    | zero => exact .inr ((HasTokens.char unstarted more).start_of_mem listed)
    | succ limit =>
      rw [takeTokens_char unstarted, List.length_cons, Nat.add_comm _ 1, ← Nat.add_assoc]
      exact inductionHypothesis listed
  | token isToken more inductionHypothesis =>
    rw [takeTokens_token isToken]
    split
    · exact .inr ((HasTokens.token isToken more).start_of_mem listed)
    · rw [List.length_append, ← Nat.add_assoc]
      rcases List.mem_cons.mp listed with rfl | later
      · exact .inl (Nat.le_add_right ..)
      · exact inductionHypothesis later

/-- No front within the limit that cuts no token is longer. -/
theorem le_length_takeTokens (tokens : HasTokens position text places) (within : count ≤ limit)
    (inside : count ≤ text.length)
    (spares : ∀ place ∈ places, place.stop ≤ position + count ∨ position + count ≤ place.start) :
    count ≤ (takeTokens limit 0 text).length := by
  induction tokens generalizing limit count with
  | done => exact inside.trans (Nat.zero_le _)
  | char unstarted more inductionHypothesis =>
    cases count with
    | zero => exact Nat.zero_le _
    | succ count =>
      obtain ⟨limit, rfl⟩ := Nat.exists_eq_succ_of_ne_zero (Nat.ne_zero_of_lt within)
      simp only [Nat.add_comm count 1, ← Nat.add_assoc] at spares
      rw [takeTokens_char unstarted]
      exact Nat.succ_le_succ (inductionHypothesis (Nat.le_of_succ_le_succ within)
        (Nat.le_of_succ_le_succ inside) spares)
  | @token position piece rest places isToken more inductionHypothesis =>
    obtain ⟨first, later⟩ := List.forall_mem_cons.mp spares
    rw [takeTokens_token isToken]
    rcases first with whole | nothing
    · -- The first token is held as a whole, so that it keeps to the limit.
      obtain ⟨more, rfl⟩ : ∃ more, count = piece.length + more :=
        Nat.exists_eq_add_of_le (Nat.le_of_add_le_add_left whole)
      rw [if_neg (by omega), List.length_append]
      simp only [← Nat.add_assoc] at later
      rw [List.length_append] at inside
      exact Nat.add_le_add_left (inductionHypothesis (by omega) (by omega) later) _
    · have empty : count = 0 := by
        have start : position + count ≤ position := nothing
        omega
      rw [empty]
      exact Nat.zero_le _

end HasTokens

/-- Trimming the end of a text keeps all tokens in it. -/
theorem IsToken.prefix_trimEnd {piece : Text} (isToken : IsToken piece) (before behind : Text) :
    before ++ piece <+: Text.trimEnd (before ++ piece ++ behind) := by
  obtain ⟨front, split⟩ := List.getLast?_eq_some_iff.mp isToken.getLast?
  have kept : Text.trimEnd ('@' :: behind) = '@' :: Text.trimEnd behind :=
    Text.dropTrailing_cons_of_neg (by decide) behind
  have whole : Text.trimEnd (before ++ piece ++ behind) =
      before ++ piece ++ Text.trimEnd behind := by
    have nonempty : Text.trimEnd ('@' :: behind) ≠ [] := by simp [kept]
    have trimmed := Text.dropTrailing_append nonempty (before ++ front)
    rw [← Text.trimEnd, ← Text.trimEnd, kept] at trimmed
    simpa [split] using trimmed
  rw [whole]
  exact List.prefix_append ..

/-- A front that cuts no token cuts none without the blanks at its end. -/
theorem SparesTokens.trimEnd {text : Text} {count : Nat} (spares : SparesTokens text count) :
    SparesTokens text (Text.trimEnd (text.take count)).length := by
  intro places tokens place listed
  rcases spares places tokens place listed with inside | outside
  · left
    obtain ⟨before, piece, rest, rfl, isToken, -, stop⟩ := tokens.isToken_of_mem listed
    obtain ⟨more, rfl⟩ : ∃ more, count = (before ++ piece).length + more := by
      refine Nat.exists_eq_add_of_le ?_
      rw [List.length_append]
      omega
    rw [← List.append_assoc, List.take_length_add_append, stop, Nat.zero_add,
      ← List.length_append]
    exact (isToken.prefix_trimEnd before (rest.take more)).length_le
  · right
    have shorter := (Text.trimEnd_front (text.take count)).length_le
    rw [List.length_take] at shorter
    omega

/-- A preview is the collapsed text if that keeps to the limit. If it does not, the preview
is a front of it within the limit, without the blanks at its end and with dots behind it;
neither that front nor what is left of it cuts a token, and no longer one within the limit
spares all tokens. -/
theorem preview_cut (limit : Nat) (text : Text) :
    (Text.collapseBlanks text).length ≤ limit ∧
        preview limit text = Text.collapseBlanks text ∨
      limit < (Text.collapseBlanks text).length ∧ ∃ cut ≤ limit,
        preview limit text =
            Text.trimEnd ((Text.collapseBlanks text).take cut) ++ "...".toList ∧
          SparesTokens (Text.collapseBlanks text) cut ∧
          SparesTokens (Text.collapseBlanks text)
            (Text.trimEnd ((Text.collapseBlanks text).take cut)).length ∧
          ∀ count ≤ limit, SparesTokens (Text.collapseBlanks text) count → count ≤ cut := by
  rw [preview]
  generalize Text.collapseBlanks text = collapsed
  by_cases short : collapsed.length ≤ limit
  · exact .inl ⟨short, if_pos short⟩
  · obtain ⟨places, tokens⟩ := exists_hasTokens 0 collapsed
    refine .inr ⟨Nat.lt_of_not_le short, (takeTokens limit 0 collapsed).length,
      tokens.length_takeTokens_le, ?_⟩
    have spares : SparesTokens collapsed (takeTokens limit 0 collapsed).length := by
      refine tokens.sparesTokens_iff.mpr fun place listed => ?_
      have spared : _ ≤ 0 + (takeTokens limit 0 collapsed).length ∨ _ :=
        tokens.takeTokens_spares listed
      rwa [Nat.zero_add] at spared
    refine ⟨?_, spares, spares.trimEnd, fun count within sparing => ?_⟩
    · rw [if_neg short, ← List.prefix_iff_eq_take.mp (takeTokens_front limit 0 collapsed)]
    · refine tokens.le_length_takeTokens within (by omega) ?_
      rw [Nat.zero_add]
      exact tokens.sparesTokens_iff.mp sparing

end LatexMarkdown.Fragment
