import LatexMarkdown.Proofs.AbsentPasses
import LatexMarkdown.Proofs.CommentIndependence

/-!
# What inline code is

Comments are dropped before inline code is stored, and the reader of comments has its own
notion of inline code: it knows no listings, no letters but those of ASCII, no blanks and
no pairs of braces. Where both notions agree, or where their difference does no harm, a
line is kept up to the first percent sign that is neither escaped nor in inline code.
-/

namespace LatexMarkdown

open Scan

namespace Code

/-! ## Pieces of a line -/

/-- What a pass over inline code takes at a place: a character that it keeps, and whether
that is escaped, or code with its command and its delimiters. -/
inductive InlinePiece where
  | kept (escaped : Bool) (c : Char)
  | code (source inner : Text)
  deriving DecidableEq, Repr

namespace InlinePiece

/-- What is written for a piece. -/
def source : InlinePiece → Text
  | kept _ c => [c]
  | code source _ => source

/-- What a pass writes for a piece. -/
def write {σ : Type} (answer : σ → Text → σ × Text) (state : σ) : InlinePiece → σ × Text
  | kept _ c => (state, [c])
  | code _ inner => answer state inner

end InlinePiece

/-- The pieces of a text. The next `covered` characters belong to code that was taken. -/
def inlinePieces (name : Text) (listing : Bool) :
    Cursor → (covered : Nat) → Text → List InlinePiece
  | _, _, [] => []
  | cursor, covered + 1, c :: rest =>
    inlinePieces name listing (cursor.advance c) covered rest
  | cursor, 0, c :: rest =>
    match if cursor.escaped then none else readInline name listing (c :: rest) with
    | none => .kept cursor.escaped c :: inlinePieces name listing (cursor.advance c) 0 rest
    | some (inner, after) =>
      let width := (c :: rest).length - after.length
      .code ((c :: rest).take width) inner ::
        inlinePieces name listing (cursor.advance c) (width - 1) rest

section Pieces

variable {name : Text} {listing : Bool} {cursor : Cursor}

/-- A pass over inline code writes one piece after another. -/
theorem editInline_eq {σ : Type} (answer : σ → Text → σ × Text) (state : σ) (text : Text) :
    editInline name listing answer state text =
      ((mapThread (InlinePiece.write answer) state (inlinePieces name listing .start 0 text)).1,
        (mapThread (InlinePiece.write answer) state
          (inlinePieces name listing .start 0 text)).2.flatten) := by
  have general (cursor : Cursor) (covered : Nat) :
      editFrom (inlineRule name listing answer) state cursor covered text =
        ((mapThread (InlinePiece.write answer) state
            (inlinePieces name listing cursor covered text)).1,
          (mapThread (InlinePiece.write answer) state
            (inlinePieces name listing cursor covered text)).2.flatten) := by
    induction text generalizing state cursor covered with
    | nil => rw [editFrom_nil, inlinePieces]; rfl
    | cons c rest inductionHypothesis =>
      cases covered with
      | succ covered => exact inductionHypothesis state (cursor.advance c) covered
      | zero =>
        rw [editFrom, inlineRule, inlinePieces]
        cases if cursor.escaped then none else readInline name listing (c :: rest) with
        | none =>
          simp only [inductionHypothesis, mapThread, InlinePiece.write]
          rfl
        | some found =>
          obtain ⟨inner, after⟩ := found
          simp only [inductionHypothesis, mapThread, InlinePiece.write]
          rfl
  exact general .start 0

/-- Covered characters are passed over. -/
theorem inlinePieces_covered (covered rest : Text) :
    inlinePieces name listing cursor covered.length (covered ++ rest) =
      inlinePieces name listing (cursor.advanceOver covered) 0 rest := by
  induction covered generalizing cursor with
  | nil => rfl
  | cons c others inductionHypothesis =>
    rw [List.cons_append, List.length_cons, inlinePieces]
    exact inductionHypothesis

theorem inlinePieces_kept {c : Char} {rest : Text}
    (unread : cursor.escaped = true ∨ readInline name listing (c :: rest) = none) :
    inlinePieces name listing cursor 0 (c :: rest) =
      .kept cursor.escaped c :: inlinePieces name listing (cursor.advance c) 0 rest := by
  have silent : (if cursor.escaped then none else readInline name listing (c :: rest)) = none := by
    rcases unread with escaped | unread
    · rw [escaped]; rfl
    · rw [unread, ite_self]
  rw [inlinePieces, silent]

theorem inlinePieces_code {source inner rest : Text} (nonempty : source ≠ [])
    (free : cursor.escaped = false)
    (read : readInline name listing (source ++ rest) = some (inner, rest)) :
    inlinePieces name listing cursor 0 (source ++ rest) =
      .code source inner :: inlinePieces name listing (cursor.advanceOver source) 0 rest := by
  obtain ⟨c, others, rfl⟩ := List.exists_cons_of_ne_nil nonempty
  have width : (c :: (others ++ rest)).length - rest.length = others.length + 1 := by
    simp
    omega
  rw [List.cons_append] at read ⊢
  rw [inlinePieces, read, free]
  simp only [Bool.false_eq_true, if_false, width, Nat.add_sub_cancel, inlinePieces_covered]
  simp [Cursor.advanceOver]

end Pieces

/-! ## Two readers of inline code -/

/-- The delimiter behind the command for inline code and its star, and the text behind
the delimiter. -/
def delimited? (text : Text) : Option (Char × Text) := do
  let after <- Text.dropFront? inlineOpening text
  match (Text.dropFront? ['*'] after).getD after with
  | [] => none
  | delimiter :: inside => some (delimiter, inside)

/-- The reader of comments closes code at the next delimiter in ASCII. -/
theorem inlineWidth?_eq (text : Text) :
    inlineWidth? text = (delimited? text).bind fun (delimiter, inside) =>
      if delimiter.toNat < 128 && !delimiter.isAlpha then
        match inside.dropWhile (· ≠ delimiter) with
        | [] => none
        | _ :: rest => some (text.length - rest.length)
      else none := by
  rw [inlineWidth?, delimited?]
  cases Text.dropFront? inlineOpening text with
  | none => rfl
  | some after =>
    simp only [Option.bind_eq_bind, Option.bind_some]
    cases (Text.dropFront? ['*'] after).getD after <;> rfl

/-- The pass over code closes it in its line, and a brace by the other brace. -/
theorem readInline_eq (text : Text) :
    readInline "verb".toList false text = (delimited? text).bind fun (delimiter, inside) =>
      if Text.isAlphabetic delimiter || Text.isAddedAlphabetic delimiter ||
          Text.isBlank delimiter then none
      else
        let closing := if delimiter = '{' then '}' else delimiter
        (Text.dropFront? [closing] (inside.dropWhile fun c => c ≠ closing && c ≠ '\n')).map
          fun rest => (inside.takeWhile fun c => c ≠ closing && c ≠ '\n', rest) := by
  have opening : inlineOpening = '\\' :: "verb".toList := rfl
  rw [readInline, delimited?, opening]
  cases text with
  | nil => rfl
  | cons c behind =>
    rw [afterCommand?, Text.dropFront?]
    by_cases backslash : c = '\\'
    · subst backslash
      rw [if_pos rfl, if_pos rfl]
      cases Text.dropFront? "verb".toList behind with
      | none => rfl
      | some after =>
        by_cases letter : Text.startsWithLetter after = true
        · -- The letter that extends the command would be the delimiter.
          cases after with
          | nil => cases letter
          | cons d inside =>
            have alphabetic : d.isAlpha = true := letter
            have starless : Text.dropFront? ['*'] (d :: inside) = none := by
              refine Text.dropFront?_eq_none_iff.mpr fun starts => ?_
              obtain ⟨rfl, -⟩ := List.cons_prefix_cons.mp starts
              exact absurd alphabetic (by decide)
            have named : Text.isAlphabetic d = true := by rw [Text.isAlphabetic, alphabetic]; rfl
            simp only [letter, if_true, starless, Option.bind_eq_bind, Option.bind_some,
              Option.bind_none, Option.getD_none, named, Bool.true_or]
        · simp only [letter, Bool.false_eq_true, if_false, Option.bind_eq_bind, Option.bind_some]
          cases (Text.dropFront? ['*'] after).getD after with
          | nil => rfl
          | cons d inside =>
            simp only [Option.bind_some, Option.map_eq_bind]
            rfl
    · rw [if_neg backslash, if_neg (Ne.symm backslash)]
      rfl

theorem delimited?_eq_some {text inside : Text} {delimiter : Char}
    (found : delimited? text = some (delimiter, inside)) :
    ∃ star, (star = [] ∨ star = ['*']) ∧
      text = inlineOpening ++ (star ++ delimiter :: inside) := by
  rw [delimited?] at found
  cases opened : Text.dropFront? inlineOpening text with
  | none => rw [opened] at found; cases found
  | some after =>
    rw [opened, Option.bind_eq_bind, Option.bind_some] at found
    rw [Text.dropFront?_eq_some_iff.mp opened]
    cases starred : Text.dropFront? ['*'] after with
    | none =>
      cases after with
      | nil => rw [starred] at found; cases found
      | cons c others =>
        rw [starred] at found
        obtain ⟨rfl, rfl⟩ := Prod.mk.inj (Option.some.inj found)
        exact ⟨[], .inl rfl, rfl⟩
    | some others =>
      rw [Text.dropFront?_eq_some_iff.mp starred]
      cases others with
      | nil => rw [starred] at found; cases found
      | cons c others =>
        rw [starred] at found
        obtain ⟨rfl, rfl⟩ := Prod.mk.inj (Option.some.inj found)
        exact ⟨['*'], .inr rfl, rfl⟩

/-- Inline code as it is written. -/
def codeSource (star : Text) (delimiter : Char) (inner : Text) (closing : Char) : Text :=
  inlineOpening ++ star ++ [delimiter] ++ inner ++ [closing]

/-- Code is read from its delimiter to the closing one. -/
theorem readInline_eq_some {text inner rest : Text}
    (read : readInline "verb".toList false text = some (inner, rest)) :
    ∃ star delimiter closing, (star = [] ∨ star = ['*']) ∧
      closing = (if delimiter = '{' then '}' else delimiter) ∧
      text = codeSource star delimiter inner closing ++ rest ∧
      delimited? text = some (delimiter, inner ++ closing :: rest) ∧
      Text.isAlphabetic delimiter = false ∧ closing ∉ inner := by
  rw [readInline_eq] at read
  obtain ⟨⟨delimiter, inside⟩, found, read⟩ := Option.bind_eq_some_iff.mp read
  obtain ⟨star, starred, spelled⟩ := delimited?_eq_some found
  simp only at read
  split at read
  · cases read
  next visible =>
  simp only [Bool.or_eq_true, not_or, Bool.not_eq_true] at visible
  generalize closes : (if delimiter = '{' then '}' else delimiter) = closing at read
  obtain ⟨behind, closed, taken⟩ := Option.map_eq_some_iff.mp read
  obtain ⟨front, rfl⟩ := Prod.mk.inj taken
  have absent : closing ∉ inner := by
    rw [← front]
    exact fun member => by simpa using List.mem_takeWhile_imp member
  have whole : inside = inner ++ closing :: behind := by
    rw [← List.singleton_append, ← Text.dropFront?_eq_some_iff.mp closed, ← front,
      List.takeWhile_append_dropWhile]
  refine ⟨star, delimiter, closing, starred, closes.symm, ?_, whole ▸ found, visible.1.1, absent⟩
  simp [spelled, whole, codeSource]

/-! ## What the reader of comments passes over -/

/-- Whether the end of a text is escaped, unless a percent sign in it is not. -/
def escapedAfter? : (escaped : Bool) → Text → Option Bool
  | escaped, [] => some escaped
  | escaped, c :: rest =>
    if !escaped && c = '%' then none else escapedAfter? (escapesNext escaped c) rest

/-- One more character before the comment, where no code is read. -/
theorem beforeComment_step {escaped : Bool} {c : Char} {rest : Text}
    (visible : escaped = true ∨ c ≠ '%')
    (unread : escaped = false → c = '\\' → inlineWidth? (c :: rest) = none) :
    beforeComment escaped.toNat (c :: rest) =
      c :: beforeComment (escapesNext escaped c).toNat rest := by
  cases escaped with
  | true => simp [beforeComment, escapesNext]
  | false =>
    by_cases backslash : c = '\\'
    · subst backslash
      simp [beforeComment, escapesNext, unread rfl rfl]
    · have plain : c ≠ '%' := visible.resolve_left Bool.false_ne_true
      simp [beforeComment, escapesNext, backslash, plain]

/-- A text without comments, in which no code is read, is passed over. -/
theorem beforeComment_passes {escaped last : Bool} {text rest : Text}
    (ends : escapedAfter? escaped text = some last)
    (unread : ∀ behind, '\\' :: behind <:+ text →
      inlineWidth? ('\\' :: (behind ++ rest)) = none) :
    beforeComment escaped.toNat (text ++ rest) = text ++ beforeComment last.toNat rest := by
  induction text generalizing escaped with
  | nil =>
    obtain rfl := Option.some.inj ends
    rfl
  | cons c others inductionHypothesis =>
    rw [escapedAfter?] at ends
    split at ends
    · cases ends
    next visible =>
    have kept : escaped = true ∨ c ≠ '%' := by
      cases escaped with
      | true => exact .inl rfl
      | false => exact .inr (by simpa using visible)
    have here : escaped = false → c = '\\' → inlineWidth? (c :: (others ++ rest)) = none := by
      rintro - rfl
      exact unread others (List.suffix_refl _)
    have later := inductionHypothesis ends fun behind within =>
      unread behind (within.trans (List.suffix_cons c others))
    rw [List.cons_append, beforeComment_step kept here, later, List.cons_append]

/-- The cursor behind a text without comments. -/
theorem advanceOver_of_escapedAfter? {cursor : Cursor} {last : Bool} {text : Text}
    (ends : escapedAfter? cursor.escaped text = some last) :
    (cursor.advanceOver text).escaped = last := by
  induction text generalizing cursor with
  | nil => exact Option.some.inj ends
  | cons c others inductionHypothesis =>
    rw [escapedAfter?] at ends
    split at ends
    · cases ends
    · exact inductionHypothesis ends

/-! ## Where both readers agree -/

/-- A text in which the reader of comments finds neither a comment nor code, and that
escapes nothing behind it. -/
def IsHarmless (text : Text) : Prop :=
  ¬ inlineOpening <:+: text ∧ escapedAfter? false text = some false

/-- Code that the reader of comments takes as well, or else passes over. A blank or a
letter is no delimiter of code at all. -/
structure IsSharedCode (delimiter : Char) (inside inner : Text) : Prop where
  /-- A backslash that closes code escapes for the one reader, and not for the other. -/
  escape : delimiter = '\\' → inner = []
  /-- For the reader of comments a brace is closed by a brace of its own kind. -/
  brace : delimiter = '{' → '{' ∉ inside
  /-- Pairs of braces and delimiters outside ASCII are unknown to the reader of comments. -/
  unknown : delimiter = '{' ∨ 128 ≤ delimiter.toNat → IsHarmless inner

/-- Only the reader of comments closes code at a blank or at a second opening brace. -/
def IsSharedKept (delimiter : Char) (inside : Text) : Prop :=
  delimiter = '{' ∨ (Text.isBlank delimiter = true ∧ delimiter.toNat < 128) → delimiter ∉ inside

/-- The reader of comments and the pass over code take a piece alike, if `behind` follows
it. -/
def IsShared (behind : Text) : InlinePiece → Prop
  | .kept escaped c => escaped = false → ∀ found ∈ delimited? (c :: behind),
      IsSharedKept found.1 found.2
  | .code source inner => ∀ found ∈ delimited? (source ++ behind),
      IsSharedCode found.1 found.2 inner

/-- Both take all pieces of a list alike. -/
def AllShared (behind : Text) : List InlinePiece → Prop
  | [] => True
  | piece :: others =>
    IsShared (others.flatMap InlinePiece.source ++ behind) piece ∧ AllShared behind others

instance (text : Text) : Decidable (IsHarmless text) :=
  inferInstanceAs (Decidable (¬ _ ∧ _ = _))

instance (delimiter : Char) (inside inner : Text) : Decidable (IsSharedCode delimiter inside inner) :=
  decidable_of_iff ((delimiter = '\\' → inner = []) ∧ (delimiter = '{' → '{' ∉ inside) ∧
      (delimiter = '{' ∨ 128 ≤ delimiter.toNat → IsHarmless inner))
    ⟨fun ⟨escape, brace, unknown⟩ => ⟨escape, brace, unknown⟩,
      fun ⟨escape, brace, unknown⟩ => ⟨escape, brace, unknown⟩⟩

instance (delimiter : Char) (inside : Text) : Decidable (IsSharedKept delimiter inside) :=
  inferInstanceAs (Decidable (_ → _))

instance (behind : Text) : (piece : InlinePiece) → Decidable (IsShared behind piece)
  | .kept .. => inferInstanceAs (Decidable (_ → ∀ _ ∈ _, _))
  | .code .. => inferInstanceAs (Decidable (∀ _ ∈ _, _))

instance decidableAllShared (behind : Text) : (pieces : List InlinePiece) →
    Decidable (AllShared behind pieces)
  | [] => .isTrue trivial
  | _ :: others => @instDecidableAnd _ _ inferInstance (decidableAllShared behind others)

section Readers

variable {text inner rest inside : Text} {delimiter closing : Char}

/-- In ASCII all alphabetic characters are letters. -/
theorem isAlphabetic_of_ascii (ascii : delimiter.toNat < 128)
    (letter : delimiter.isAlpha = false) :
    Text.isAlphabetic delimiter = false ∧ Text.isAddedAlphabetic delimiter = false := by
  constructor
  · have low : decide (127 < delimiter.toNat) = false := by
      rw [decide_eq_false_iff_not]
      omega
    rw [Text.isAlphabetic, letter, low]
    rfl
  · have above : ∀ range ∈ Text.addedAlphabeticRanges, 128 ≤ range.1 := by decide
    rw [Text.isAddedAlphabetic, Text.inRanges, List.any_eq_false]
    intro range listed
    have start := above range listed
    simp only [Bool.and_eq_true, decide_eq_true_eq]
    omega

/-- What is read up to a closing character in the same line. -/
theorem dropWhile_closing (absent : closing ∉ inner) (single : '\n' ∉ inner) :
    ((inner ++ closing :: rest).dropWhile fun c => c ≠ closing && c ≠ '\n') = closing :: rest := by
  have inside : ∀ c ∈ inner, (decide (c ≠ closing) && decide (c ≠ '\n')) = true := by
    intro c member
    have open' : c ≠ closing := fun same => absent (same ▸ member)
    have unbroken : c ≠ '\n' := fun same => single (same ▸ member)
    simp [open', unbroken]
  rw [List.dropWhile_append_of_pos inside, List.dropWhile_cons_of_neg (by simp)]

/-- Where no code is stored no code is passed over. -/
theorem inlineWidth?_of_unread (single : '\n' ∉ text.dropLast)
    (unread : readInline "verb".toList false text = none)
    (shared : ∀ found ∈ delimited? text, IsSharedKept found.1 found.2) :
    inlineWidth? text = none := by
  rw [inlineWidth?_eq]
  cases found : delimited? text with
  | none => rfl
  | some pair =>
    obtain ⟨delimiter, inside⟩ := pair
    simp only [Option.bind_some]
    split
    next known =>
      obtain ⟨ascii, letter⟩ : delimiter.toNat < 128 ∧ delimiter.isAlpha = false := by
        simpa using known
      -- The code would be closed in its line, so that both would read it.
      have unclosed : delimiter ∉ inside := by
        intro closed
        have sharedKept : IsSharedKept delimiter inside := shared _ found
        have brace : delimiter ≠ '{' := fun brace => sharedKept (.inl brace) closed
        have visible : Text.isBlank delimiter = false := by
          by_contra blank
          exact sharedKept (.inr ⟨by simpa using blank, ascii⟩) closed
        have alphabetic := isAlphabetic_of_ascii ascii letter
        obtain ⟨inner, rest, rfl, absent⟩ := List.eq_append_cons_of_mem closed
        obtain ⟨star, -, rfl⟩ := delimited?_eq_some found
        have whole : inlineOpening ++ (star ++ delimiter :: (inner ++ delimiter :: rest)) =
            (inlineOpening ++ star ++ delimiter :: inner) ++ delimiter :: rest := by simp
        have unbroken : '\n' ∉ inner := by
          intro member
          rw [whole, List.dropLast_append_of_ne_nil (List.cons_ne_nil _ _)] at single
          exact single (List.mem_append_left _ (by simp [member]))
        rw [readInline_eq, found] at unread
        simp only [Option.bind_some, alphabetic, visible, Bool.or_self, Bool.false_eq_true, if_false,
          if_neg brace, dropWhile_closing absent unbroken] at unread
        simp [Text.dropFront?] at unread
      rw [List.dropWhile_eq_nil_iff.mpr fun c member => by
        simpa using fun same : c = delimiter => unclosed (same ▸ member)]
    · rfl

section Source

variable {star : Text} (starred : star = [] ∨ star = ['*'])
  (closes : closing = if delimiter = '{' then '}' else delimiter)
  (found : delimited? (codeSource star delimiter inner closing ++ rest) =
    some (delimiter, inner ++ closing :: rest))

include found

section Known

include closes

/-- Code with a delimiter that the reader of comments knows is passed over as it reads it. -/
theorem beforeComment_known (known : delimiter ≠ '{' ∧ delimiter.toNat < 128)
    (letter : delimiter.isAlpha = false) (absent : closing ∉ inner) :
    beforeComment 0 (codeSource star delimiter inner closing ++ rest) =
      codeSource star delimiter inner closing ++ beforeComment 0 rest := by
  obtain rfl : closing = delimiter := by rw [closes, if_neg known.1]
  have inside : ∀ c ∈ inner, decide (c ≠ closing) = true := fun c member =>
    decide_eq_true fun same => absent (same ▸ member)
  have closed : (inner ++ closing :: rest).dropWhile (· ≠ closing) = closing :: rest := by
    rw [List.dropWhile_append_of_pos inside, List.dropWhile_cons_of_neg (by simp)]
  have width : inlineWidth? (codeSource star closing inner closing ++ rest) =
      some (codeSource star closing inner closing).length := by
    rw [inlineWidth?_eq, found]
    simp only [Option.bind_some, known.2, letter, decide_true, Bool.not_false, Bool.and_self,
      if_true, closed, List.length_append, Nat.add_sub_cancel]
  obtain ⟨others, spelled⟩ : ∃ others, codeSource star closing inner closing = '\\' :: others :=
    ⟨_, rfl⟩
  have covered := Document.Alternation.beforeComment_covered others rest
  rw [spelled, List.cons_append] at width ⊢
  rw [beforeComment, if_pos rfl, width, Option.getD_some, List.length_cons, Nat.add_sub_cancel,
    covered, List.cons_append]

end Known

/-- A delimiter that the reader of comments does not know does not make it read code. -/
theorem inlineWidth?_unknown (unknown : delimiter = '{' ∨ 128 ≤ delimiter.toNat)
    (brace : delimiter = '{' → '{' ∉ inner ++ closing :: rest) :
    inlineWidth? (codeSource star delimiter inner closing ++ rest) = none := by
  rw [inlineWidth?_eq, found]
  simp only [Option.bind_some]
  split
  next known =>
    have opening : delimiter = '{' := by
      refine unknown.resolve_right fun above => ?_
      simp only [Bool.and_eq_true, decide_eq_true_eq] at known
      omega
    rw [List.dropWhile_eq_nil_iff.mpr fun c member => by
      simpa using fun same : c = delimiter => brace opening (opening ▸ same ▸ member)]
  · rfl

include starred closes

/-- Code with a delimiter that the reader of comments does not know is passed over all the
same, if nothing in it is a comment or code for that reader. -/
theorem beforeComment_unknown (unknown : delimiter = '{' ∨ 128 ≤ delimiter.toNat)
    (brace : delimiter = '{' → '{' ∉ inner ++ closing :: rest) (harmless : IsHarmless inner) :
    beforeComment 0 (codeSource star delimiter inner closing ++ rest) =
      codeSource star delimiter inner closing ++ beforeComment 0 rest := by
  have apart : ∀ c ∈ '%' :: inlineOpening, c ≠ '{' ∧ c ≠ '}' ∧ c.toNat < 128 := by decide
  have opens : delimiter ∉ '%' :: inlineOpening := by
    intro listed
    obtain ⟨left, -, ascii⟩ := apart delimiter listed
    exact unknown.elim left (Nat.not_le.mpr ascii)
  have ends : closing ∉ '%' :: inlineOpening := by
    rw [closes]
    split
    · decide
    · exact opens
  rw [List.mem_cons, not_or] at opens ends
  have backslash : delimiter ≠ '\\' := fun same => opens.2 (same ▸ by decide)
  have closed : beforeComment 0 (closing :: rest) = closing :: beforeComment 0 rest := by
    have plain : closing ≠ '\\' := fun same => ends.2 (same ▸ by decide)
    rw [beforeComment, if_neg plain, if_neg ends.1]
  have inside : beforeComment 0 (inner ++ closing :: rest) =
      inner ++ beforeComment 0 (closing :: rest) := by
    refine beforeComment_passes harmless.2 fun behind within => ?_
    have unnamed : ¬ inlineOpening <+: ('\\' :: behind) ++ closing :: rest := fun starts =>
      harmless.1 ((Text.prefix_of_prefix_append_cons ends.2 starts).isInfix.trans within.isInfix)
    have unopened := Text.dropFront?_eq_none_iff.mpr unnamed
    rw [List.cons_append] at unopened
    rw [inlineWidth?, unopened]
    rfl
  have spelled (behind : Text) : codeSource star delimiter inner closing ++ behind =
      (inlineOpening ++ star ++ [delimiter]) ++ (inner ++ closing :: behind) := by
    simp [codeSource]
  have before : beforeComment 0 (codeSource star delimiter inner closing ++ rest) =
      (inlineOpening ++ star ++ [delimiter]) ++ beforeComment 0 (inner ++ closing :: rest) := by
    have unread := inlineWidth?_unknown found unknown brace
    have plain : escapedAfter? false (inlineOpening ++ star ++ [delimiter]) = some false := by
      rcases starred with rfl | rfl <;>
        simp [inlineOpening, escapedAfter?, escapesNext, opens.1, backslash]
    rw [spelled] at unread ⊢
    have opened : inlineOpening ++ star ++ [delimiter] =
        '\\' :: ("verb".toList ++ star ++ [delimiter]) := rfl
    refine beforeComment_passes plain fun behind within => ?_
    rw [opened] at within
    rcases List.suffix_cons_iff.mp within with whole | later
    · rw [← List.cons_append, whole, ← opened, unread]
    · refine absurd (later.subset List.mem_cons_self) ?_
      rcases starred with rfl | rfl <;> simp [Ne.symm backslash]
  rw [before, inside, closed, spelled]

omit found

/-- Nothing behind code is escaped, unless it is closed by a backslash. -/
theorem advanceOver_codeSource (escape : delimiter = '\\' → inner = []) {cursor : Cursor}
    (free : cursor.escaped = false) :
    (cursor.advanceOver (codeSource star delimiter inner closing)).escaped = false := by
  by_cases backslash : closing = '\\'
  · have opening : delimiter = '\\' := by
      rw [closes] at backslash
      split at backslash
      · exact absurd backslash (by decide)
      · exact backslash
    rw [escape opening, opening, backslash]
    refine advanceOver_of_escapedAfter? ?_
    rw [free]
    rcases starred with rfl | rfl <;> rfl
  · exact Cursor.advanceOver_concat_escaped cursor _ backslash

end Source

/-- Code that is stored is passed over as a whole. -/
theorem beforeComment_of_read (read : readInline "verb".toList false text = some (inner, rest))
    (shared : ∀ found ∈ delimited? text, IsSharedCode found.1 found.2 inner) :
    ∃ source, source ≠ [] ∧ text = source ++ rest ∧
      beforeComment 0 text = source ++ beforeComment 0 rest ∧
      ∀ cursor : Cursor, cursor.escaped = false → (cursor.advanceOver source).escaped = false := by
  obtain ⟨star, delimiter, closing, starred, closes, rfl, found, alphabetic, absent⟩ :=
    readInline_eq_some read
  obtain ⟨escape, brace, unknown⟩ := shared _ found
  refine ⟨codeSource star delimiter inner closing, by simp [codeSource], rfl, ?_,
    fun _ free => advanceOver_codeSource starred closes escape free⟩
  by_cases foreign : delimiter = '{' ∨ 128 ≤ delimiter.toNat
  · exact beforeComment_unknown starred closes found foreign brace (unknown foreign)
  · have letter : delimiter.isAlpha = false := by
      rw [Text.isAlphabetic, Bool.or_eq_false_iff] at alphabetic
      exact alphabetic.1
    rw [not_or, Nat.not_le] at foreign
    exact beforeComment_known closes found foreign letter absent

end Readers

/-! ## Lines without comments -/

section Lines

variable {text : Text} {cursor : Cursor} {piece : InlinePiece} {others first last : List InlinePiece}

/-- Why a piece is taken from a text, before the rest: no code is read at a character, or
the code is. -/
def IsTaken (cursor : Cursor) (text rest : Text) : InlinePiece → Prop
  | .kept escaped _ =>
    escaped = cursor.escaped ∧
      (cursor.escaped = true ∨ readInline "verb".toList false text = none)
  | .code _ inner =>
    cursor.escaped = false ∧ readInline "verb".toList false text = some (inner, rest)

/-- How the first piece of a text is taken. -/
theorem inlinePieces_eq_cons
    (split : inlinePieces "verb".toList false cursor 0 text = piece :: others) :
    ∃ rest, text = piece.source ++ rest ∧ piece.source ≠ [] ∧
      inlinePieces "verb".toList false (cursor.advanceOver piece.source) 0 rest = others ∧
      IsTaken cursor text rest piece := by
  cases text with
  | nil => cases split
  | cons c rest =>
    by_cases unread : cursor.escaped = true ∨ readInline "verb".toList false (c :: rest) = none
    · rw [inlinePieces_kept unread] at split
      obtain ⟨rfl, rfl⟩ := List.cons.inj split
      exact ⟨rest, rfl, List.cons_ne_nil _ _, rfl, rfl, unread⟩
    · rw [not_or, Bool.not_eq_true] at unread
      obtain ⟨⟨inner, after⟩, read⟩ := Option.ne_none_iff_exists'.mp unread.2
      obtain ⟨star, delimiter, closing, -, -, spelled, -, -, -⟩ := readInline_eq_some read
      have nonempty : codeSource star delimiter inner closing ≠ [] := by simp [codeSource]
      rw [spelled] at split read ⊢
      rw [inlinePieces_code nonempty unread.1 read] at split
      obtain ⟨rfl, rfl⟩ := List.cons.inj split
      exact ⟨after, rfl, nonempty, rfl, unread.1, read⟩

/-- The pieces of a text are all of it. -/
theorem flatMap_inlinePieces (cursor : Cursor) (text : Text) :
    (inlinePieces "verb".toList false cursor 0 text).flatMap InlinePiece.source = text := by
  generalize split : inlinePieces "verb".toList false cursor 0 text = pieces
  induction pieces generalizing cursor text with
  | nil =>
    cases text with
    | nil => rfl
    | cons c rest =>
      rw [inlinePieces] at split
      split at split <;> cases split
  | cons piece others inductionHypothesis =>
    obtain ⟨rest, rfl, -, later, -⟩ := inlinePieces_eq_cons split
    rw [List.flatMap_cons, inductionHypothesis _ _ later]

/-- Each piece is passed over, unless it is the percent sign of a comment. -/
theorem beforeComment_piece (single : '\n' ∉ text.dropLast)
    (split : inlinePieces "verb".toList false cursor 0 text = piece :: others)
    (shared : IsShared (others.flatMap InlinePiece.source) piece) :
    ∃ rest moved, text = piece.source ++ rest ∧ piece.source ≠ [] ∧
      inlinePieces "verb".toList false moved 0 rest = others ∧
      beforeComment cursor.escaped.toNat text =
        if piece = .kept false '%' then []
        else piece.source ++ beforeComment moved.escaped.toNat rest := by
  obtain ⟨rest, spelled, nonempty, later, taken⟩ := inlinePieces_eq_cons split
  have behind : others.flatMap InlinePiece.source = rest := by
    rw [← later, flatMap_inlinePieces]
  rw [behind] at shared
  refine ⟨rest, _, spelled, nonempty, later, ?_⟩
  cases piece with
  | kept escaped c =>
    obtain ⟨rfl, unread⟩ := taken
    have whole : text = c :: rest := spelled
    by_cases comment : InlinePiece.kept cursor.escaped c = .kept false '%'
    · obtain ⟨free, rfl⟩ := InlinePiece.kept.inj comment
      rw [if_pos comment, whole, free]
      rfl
    · have visible : cursor.escaped = true ∨ c ≠ '%' := by
        cases free : cursor.escaped with
        | true => exact .inl rfl
        | false =>
          rw [free] at comment
          exact .inr fun same => comment (same ▸ rfl)
      have silent : cursor.escaped = false → c = '\\' → inlineWidth? (c :: rest) = none := by
        intro free _
        rw [← whole]
        refine inlineWidth?_of_unread single (unread.resolve_left (by simp [free])) ?_
        rw [whole]
        exact shared free
      rw [if_neg comment, whole, beforeComment_step visible silent]
      rfl
  | code source inner =>
    obtain ⟨free, read⟩ := taken
    have spelledOut : text = source ++ rest := spelled
    have sharedCode : ∀ found ∈ delimited? text, IsSharedCode found.1 found.2 inner := by
      rw [spelledOut]
      exact shared
    obtain ⟨alsoSource, -, alsoSpelled, passed, ends⟩ := beforeComment_of_read read sharedCode
    obtain rfl : source = alsoSource := List.append_cancel_right (spelledOut.symm.trans alsoSpelled)
    have moved : (cursor.advanceOver source).escaped = false := ends cursor free
    rw [if_neg InlinePiece.noConfusion, free]
    exact passed.trans (by rw [InlinePiece.source, moved]; rfl)

/-- A line is kept up to the first percent sign that starts a comment. -/
theorem beforeComment_pieces (single : '\n' ∉ text.dropLast)
    (split : inlinePieces "verb".toList false cursor 0 text = first ++ last)
    (shared : AllShared (last.flatMap InlinePiece.source) first) :
    (.kept false '%' ∉ first → first.flatMap InlinePiece.source <+:
        beforeComment cursor.escaped.toNat text) ∧
      (.kept false '%' ∈ first → (beforeComment cursor.escaped.toNat text).length <
        (first.flatMap InlinePiece.source).length) := by
  induction first generalizing cursor text with
  | nil => exact ⟨fun _ => List.nil_prefix, fun listed => absurd listed List.not_mem_nil⟩
  | cons piece others inductionHypothesis =>
    obtain ⟨here, later⟩ := shared
    rw [← List.flatMap_append] at here
    obtain ⟨rest, moved, rfl, nonempty, behind, passed⟩ := beforeComment_piece single split here
    have alsoSingle : '\n' ∉ rest.dropLast := by
      cases rest with
      | nil => exact List.not_mem_nil
      | cons c others =>
        rw [List.dropLast_append_of_ne_nil (List.cons_ne_nil _ _)] at single
        exact fun member => single (List.mem_append_right _ member)
    obtain ⟨kept, cut⟩ := inductionHypothesis alsoSingle behind later
    rw [List.mem_cons, List.flatMap_cons, passed]
    by_cases comment : piece = .kept false '%'
    · have filled : 0 < piece.source.length := List.length_pos_of_ne_nil nonempty
      rw [if_pos comment]
      refine ⟨fun absent => absurd (.inl comment.symm) absent, fun _ => ?_⟩
      simp only [List.length_nil, List.length_append]
      omega
    · rw [if_neg comment]
      refine ⟨fun absent => ?_, fun listed => ?_⟩
      · exact (List.prefix_append_right_inj _).mpr (kept fun member => absent (.inr member))
      · have shorter := cut (listed.resolve_left (Ne.symm comment))
        simp only [List.length_append]
        omega

/-- What is one line with its break is left a line. -/
theorem linesWithBreaks_of_dropLast (single : '\n' ∉ text.dropLast) (nonempty : text ≠ []) :
    Text.linesWithBreaks text = [text] := by
  induction text with
  | nil => exact absurd rfl nonempty
  | cons c rest inductionHypothesis =>
    cases rest with
    | nil =>
      rw [Text.linesWithBreaks]
      split <;> rfl
    | cons d others =>
      rw [List.dropLast_cons_cons, List.mem_cons, not_or] at single
      rw [Text.linesWithBreaks, if_neg (Ne.symm single.1),
        inductionHypothesis single.2 (List.cons_ne_nil _ _)]
      rfl

/-- A single line loses its comment. -/
theorem stripComments_of_single (single : '\n' ∉ text.dropLast) (unfenced : Unfenced text) :
    stripComments text = beforeComment 0 text := by
  by_cases empty : text = []
  · subst empty
    rfl
  · rw [stripComments, linesWithBreaks_of_dropLast single empty, stripCommentLines_unfenced unfenced]
    simp [stripCommentLines]

/-- The pass over inline code stores the code in a line, and keeps the characters around
it. If the reader of comments takes the first pieces of the line alike, stripping the
comments keeps them all exactly if no percent sign that starts a comment is among them.
The same goes for the code of listings, which the pass keeps as characters. -/
theorem stripComments_inlineCode {line : Text} (single : '\n' ∉ line.dropLast)
    (unfenced : Unfenced line)
    (split : inlinePieces "verb".toList false .start 0 line = first ++ last)
    (shared : '%' ∈ line → AllShared (last.flatMap InlinePiece.source) first) :
    (∀ store, editInline "verb".toList false storeInline store line =
        ((mapThread (InlinePiece.write storeInline) store (first ++ last)).1,
          (mapThread (InlinePiece.write storeInline) store (first ++ last)).2.flatten)) ∧
      (first.flatMap InlinePiece.source <+: stripComments line ↔ .kept false '%' ∉ first) := by
  refine ⟨fun store => by rw [editInline_eq, split], ?_⟩
  have whole : line = first.flatMap InlinePiece.source ++ last.flatMap InlinePiece.source := by
    rw [← List.flatMap_append, ← split, flatMap_inlinePieces]
  by_cases percent : '%' ∈ line
  · obtain ⟨kept, cut⟩ := beforeComment_pieces single split (shared percent)
    rw [stripComments_of_single single unfenced]
    refine ⟨fun stays listed => ?_, kept⟩
    exact Nat.not_le.mpr (cut listed) stays.length_le
  · rw [stripComments_of_absent percent]
    refine ⟨fun _ listed => percent ?_, fun _ => ⟨_, whole.symm⟩⟩
    rw [whole]
    exact List.mem_append_left _ (List.mem_flatMap.mpr ⟨_, listed, List.mem_singleton_self _⟩)

end Lines

/-- A line with an escaped percent sign, with code, and with a comment. -/
def codedLine : Text :=
  "5\\% \\verb|10%|, \\verb*§a§, \\lstinline!b! % c".toList

/-- The pieces of the line before the comment. -/
def codedPieces : List InlinePiece :=
  (inlinePieces "verb".toList false .start 0 codedLine).take 23

theorem stripComments_codedLine :
    ('\n' ∉ codedLine.dropLast ∧ Unfenced codedLine) ∧
      .code "\\verb|10%|".toList "10%".toList ∈ codedPieces ∧
      codedPieces.flatMap InlinePiece.source <+: stripComments codedLine := by
  have single : '\n' ∉ codedLine.dropLast := by decide
  have unfenced : Unfenced codedLine := by decide
  have split := (List.take_append_drop 23 (inlinePieces "verb".toList false .start 0 codedLine)).symm
  have shared : AllShared (((inlinePieces "verb".toList false .start 0 codedLine).drop 23).flatMap
      InlinePiece.source) codedPieces := by decide
  have kept := (stripComments_inlineCode single unfenced split fun _ => shared).2
  exact ⟨⟨single, unfenced⟩, by decide, kept.mpr (by decide)⟩

/-- The only code of this line is stored, but the reader of comments does not know its
delimiters and cuts it. -/
theorem stripComments_sectionSigns :
    let line := "\\verb§50%§".toList
    inlinePieces "verb".toList false .start 0 line = [.code line "50%".toList] ∧
      Unfenced line ∧ stripComments line = "\\verb§50".toList := by
  decide

end Code

end LatexMarkdown
