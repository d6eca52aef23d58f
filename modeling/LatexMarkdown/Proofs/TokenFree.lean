import LatexMarkdown.Html
import LatexMarkdown.Proofs.Layout
import LatexMarkdown.Proofs.Pieces
import LatexMarkdown.Proofs.Token

/-!
# Texts without tokens

A text is free of tokens when no part of it spells one. A token has neither
blanks nor signs inside it, so that a text with such a character is free of
tokens exactly when both sides of the character are.
-/

namespace LatexMarkdown.Fragment

/-- No part of a text is an opening, at least one decimal digit of any script,
and a closing. -/
def TokenFree (text : Text) : Prop :=
  ∀ digits, digits ≠ [] → (∀ c ∈ digits, Text.isDecimal c = true) →
    ¬ tokenOpening ++ (digits ++ tokenClosing) <:+: text

/-- A character that no token holds. -/
def Separates (c : Char) : Prop :=
  c ∉ tokenOpening ∧ Text.isDecimal c = false

instance (c : Char) : Decidable (Separates c) :=
  inferInstanceAs (Decidable (_ ∧ _))

/-- All characters of a text separate. -/
def Separating (text : Text) : Prop :=
  ∀ c ∈ text, Separates c

instance (text : Text) : Decidable (Separating text) :=
  List.decidableBAll Separates text

/-- A token holds no separating character. -/
theorem Separates.not_mem {c : Char} (separates : Separates c) {digits : Text}
    (decimal : ∀ c ∈ digits, Text.isDecimal c = true) :
    c ∉ tokenOpening ++ (digits ++ tokenClosing) := by
  have closing : c ∉ tokenClosing := by
    intro member
    rw [tokenClosing_eq] at member
    apply separates.1
    rw [tokenOpening_eq]
    simp only [List.mem_cons, List.not_mem_nil, or_false, or_self] at member
    simp [member]
  rw [List.mem_append, List.mem_append, not_or, not_or]
  refine ⟨separates.1, fun member => ?_, closing⟩
  have digit := decimal c member
  rw [separates.2] at digit
  exact Bool.false_ne_true digit

/-- A text that separates is apart from all tokens. -/
theorem Separating.apart {text : Text} (separating : Separating text) {digits : Text}
    (decimal : ∀ c ∈ digits, Text.isDecimal c = true) :
    Text.Apart text (tokenOpening ++ (digits ++ tokenClosing)) :=
  fun c member => (separating c member).not_mem decimal

namespace TokenFree

/-- A part of a text without tokens has none. -/
theorem of_infix {part text : Text} (free : TokenFree text) (inside : part <:+: text) :
    TokenFree part :=
  fun digits nonempty decimal occurs => free digits nonempty decimal (occurs.trans inside)

/-- A text that lacks a character of the opening has no tokens. -/
theorem of_not_mem {c : Char} {text : Text} (needed : c ∈ tokenOpening) (absent : c ∉ text) :
    TokenFree text :=
  fun _ _ _ occurs => absent (occurs.subset (List.mem_append_left _ needed))

/-- A text that lacks the opening has no tokens. -/
theorem of_absent {text : Text} (absent : ¬ tokenOpening <:+: text) : TokenFree text :=
  fun _ _ _ occurs => absent ((List.prefix_append _ _).isInfix.trans occurs)

/-- A text without at signs has no tokens. -/
theorem of_no_at {text : Text} (absent : '@' ∉ text) : TokenFree text :=
  of_not_mem (by decide) absent

/-- An empty text has no tokens. -/
theorem nil : TokenFree [] :=
  of_no_at List.not_mem_nil

/-- The digits of a number have no tokens. -/
theorem ofNat (number : Nat) : TokenFree (Text.ofNat number) :=
  of_no_at (not_mem_ofNat number)

/-- A text without tokens takes none over. -/
theorem iff_nothing {text : Text} (free : TokenFree text) :
    TokenFree text ↔ ∀ part ∈ ([] : List Text), TokenFree part :=
  iff_of_true free (List.forall_mem_nil _)

end TokenFree

/-- A text that holds the tokens of another one is free of tokens when that one
is. -/
theorem tokenFree_congr {text other : Text}
    (same : ∀ digits, (∀ c ∈ digits, Text.isDecimal c = true) →
      (tokenOpening ++ (digits ++ tokenClosing) <:+: text ↔
        tokenOpening ++ (digits ++ tokenClosing) <:+: other)) :
    TokenFree text ↔ TokenFree other :=
  forall_congr' fun digits => forall_congr' fun _ => forall_congr' fun decimal =>
    not_congr (same digits decimal)

/-- A text that holds the tokens of two others is free of tokens when both are. -/
theorem tokenFree_split {text before after : Text}
    (split : ∀ digits, (∀ c ∈ digits, Text.isDecimal c = true) →
      (tokenOpening ++ (digits ++ tokenClosing) <:+: text ↔
        tokenOpening ++ (digits ++ tokenClosing) <:+: before ∨
          tokenOpening ++ (digits ++ tokenClosing) <:+: after)) :
    TokenFree text ↔ TokenFree before ∧ TokenFree after := by
  simp only [TokenFree, ← forall_and]
  refine forall_congr' fun digits => forall_congr' fun _ => forall_congr' fun decimal => ?_
  rw [split digits decimal, not_or]

/-- A separating character splits a text into parts that have tokens by
themselves. -/
theorem tokenFree_append_cons {c : Char} (separates : Separates c) {before after : Text} :
    TokenFree (before ++ c :: after) ↔ TokenFree before ∧ TokenFree after :=
  tokenFree_split fun _ decimal => Text.infix_append_cons_iff (separates.not_mem decimal)

/-- A separating character in front adds no token. -/
theorem tokenFree_cons {c : Char} (separates : Separates c) {text : Text} :
    TokenFree (c :: text) ↔ TokenFree text := by
  rw [← List.nil_append (c :: text), tokenFree_append_cons separates, and_iff_right TokenFree.nil]

/-- Separating characters in front add no token. -/
theorem tokenFree_append_left {before text : Text} (separating : Separating before) :
    TokenFree (before ++ text) ↔ TokenFree text :=
  tokenFree_congr fun _ decimal => Text.infix_append_left_iff (separating.apart decimal)

/-- A stretch of separating characters splits a text into parts that have tokens
by themselves. -/
theorem tokenFree_around {before middle after : Text} (nonempty : middle ≠ [])
    (separating : Separating middle) :
    TokenFree (before ++ middle ++ after) ↔ TokenFree before ∧ TokenFree after :=
  tokenFree_split fun _ decimal => Text.infix_around_iff nonempty (separating.apart decimal)

/-- Separating characters behind add no token. -/
theorem tokenFree_append_right {text after : Text} (separating : Separating after) :
    TokenFree (text ++ after) ↔ TokenFree text := by
  cases after with
  | nil => rw [List.append_nil]
  | cons c others =>
    rw [← List.append_nil (text ++ c :: others),
      tokenFree_around (List.cons_ne_nil c others) separating, and_iff_left TokenFree.nil]

/-- A text within separating characters has its own tokens. -/
theorem tokenFree_within {before text after : Text} (left : Separating before)
    (right : Separating after) : TokenFree (before ++ text ++ after) ↔ TokenFree text := by
  rw [tokenFree_append_right right, tokenFree_append_left left]

/-- Rewriting the separating characters of a text by other separating characters
neither makes nor breaks a token. -/
theorem tokenFree_flatMap {change : Char → Text}
    (keeps : ∀ c, ¬ Separates c → change c = [c])
    (separate : ∀ c, Separates c → change c ≠ [] ∧ Separating (change c)) (text : Text) :
    TokenFree (text.flatMap change) ↔ TokenFree text := by
  refine tokenFree_congr fun digits decimal => Text.infix_flatMap_iff (fun c inside => ?_)
    (fun c absent => ?_) text
  · exact keeps c fun separates => separates.not_mem decimal inside
  · by_cases apart : Separates c
    · obtain ⟨nonempty, others⟩ := separate c apart
      exact ⟨nonempty, others.apart decimal⟩
    · rw [keeps c apart]
      exact ⟨List.cons_ne_nil c [], Text.apart_singleton absent⟩

/-- Escaping a text for HTML neither makes nor breaks a token. -/
@[simp] theorem tokenFree_escapeHtml (text : Text) :
    TokenFree (Text.escapeHtml text) ↔ TokenFree text := by
  have signs : Separating ['&', '<', '>', '"'] := by decide
  refine tokenFree_flatMap (fun c joined => ?_) (fun c apart => ?_) text
  · have plain : ∀ d ∈ ['&', '<', '>', '"'], c ≠ d := by
      rintro d member rfl
      exact joined (signs c member)
    simp only [List.forall_mem_cons] at plain
    simp [Text.escapedCharacter, plain]
  · rw [Text.escapedCharacter]
    repeat' split
    all_goals first
      | decide
      | exact ⟨List.cons_ne_nil _ _, List.forall_mem_singleton.mpr apart⟩

/-- Replacing separating characters by other ones neither makes nor breaks a
token. -/
theorem tokenFree_replaceAll {found replacement : Text} (filled : found ≠ [] ∧ replacement ≠ [])
    (separating : Separating found ∧ Separating replacement) (text : Text) :
    TokenFree (Scan.replaceAll found replacement text) ↔ TokenFree text :=
  tokenFree_congr fun _ decimal => Text.infix_replaceAll_iff filled.1 filled.2
    (separating.1.apart decimal) (separating.2.apart decimal) text

/-- The code points of all blanks. -/
def blankCodes : List Nat :=
  List.range' 9 5 ++ List.range' 0x2000 11 ++
    [32, 0x85, 0xa0, 0x1680, 0x2028, 0x2029, 0x202f, 0x205f, 0x3000]

/-- There are no other blanks. -/
theorem mem_blankCodes {c : Char} (blank : Text.isBlank c = true) : c.toNat ∈ blankCodes := by
  simp only [Text.isBlank, Bool.or_eq_true, Bool.and_eq_true, decide_eq_true_eq] at blank
  simp only [blankCodes, List.mem_append, List.mem_range'_1, List.mem_cons, List.not_mem_nil,
    or_false]
  by_cases space : c = ' '
  · subst space
    decide
  · simp only [space, or_false] at blank
    omega

/-- No blank is a decimal digit or stands in the opening of a token. -/
theorem separates_of_isBlank {c : Char} (blank : Text.isBlank c = true) : Separates c := by
  have codes : ∀ code ∈ blankCodes, Separates (Char.ofNat code) := by decide
  have same := codes c.toNat (mem_blankCodes blank)
  rwa [Char.ofNat_toNat] at same

/-- Dropping blanks at the start neither makes nor breaks a token. -/
@[simp] theorem tokenFree_trimStart (text : Text) :
    TokenFree (Text.trimStart text) ↔ TokenFree text := by
  have blanks : Separating (text.takeWhile Text.isBlank) :=
    fun c member => separates_of_isBlank (List.mem_takeWhile_imp member)
  rw [← tokenFree_append_left blanks, Text.trimStart, List.takeWhile_append_dropWhile]

/-- Dropping blanks at the end neither makes nor breaks a token. -/
@[simp] theorem tokenFree_trimEnd (text : Text) :
    TokenFree (Text.trimEnd text) ↔ TokenFree text := by
  have blanks : Separating (text.rtakeWhile Text.isBlank) :=
    fun c member => separates_of_isBlank (List.mem_rtakeWhile_imp member)
  rw [← tokenFree_append_right blanks, Text.trimEnd, Text.dropTrailing_eq_rdropWhile,
    List.rdropWhile_append_rtakeWhile]

/-- Trimming neither makes nor breaks a token. -/
@[simp] theorem tokenFree_trim (text : Text) : TokenFree (Text.trim text) ↔ TokenFree text := by
  rw [Text.trim, tokenFree_trimEnd, tokenFree_trimStart]

/-- Collapsing blanks neither makes nor breaks a token. -/
@[simp] theorem tokenFree_collapseBlanks (text : Text) :
    TokenFree (Text.collapseBlanks text) ↔ TokenFree text := by
  refine tokenFree_congr fun digits decimal =>
    Text.infix_collapseBlanks_iff ?_ (fun c member => ?_) text
  · exact List.append_ne_nil_of_left_ne_nil tokenOpening_ne_nil _
  · refine Bool.eq_false_iff.mpr fun blank => ?_
    exact (separates_of_isBlank blank).not_mem decimal member

/-! ## Breaking openings up -/

/-- Up to the first word joiner a text in which openings are broken up is as it was. -/
theorem prefix_of_prefix_neutralize {front text : Text} (unjoined : wordJoiner ∉ front)
    (start : front <+: neutralize text) : front <+: text := by
  induction text generalizing front with
  | nil => exact start
  | cons c rest inductionHypothesis =>
    cases dropped : Text.dropFront? tokenOpening (c :: rest) with
    | none =>
      rw [neutralize, Scan.replaceAll_cons dropped] at start
      cases front with
      | nil => exact List.nil_prefix
      | cons d others =>
        obtain ⟨rfl, later⟩ := List.cons_prefix_cons.mp start
        rw [List.mem_cons, not_or] at unjoined
        exact List.cons_prefix_cons.mpr ⟨rfl, inductionHypothesis unjoined.2 later⟩
    | some after =>
      have signs : "@@".toList <+: c :: rest := by
        rw [Text.dropFront?_eq_some_iff.mp dropped]
        exact ⟨"BLOCK".toList ++ after, rfl⟩
      rw [Text.dropFront?_eq_some_iff.mp dropped, neutralize,
        Scan.replaceAll_append tokenOpening_ne_nil, List.append_assoc] at start
      rcases List.prefix_or_prefix_of_prefix start (List.prefix_append _ _) with short | long
      · exact short.trans signs
      · obtain ⟨behind, rfl⟩ := long
        cases behind with
        | nil => rwa [List.append_nil]
        | cons d others =>
          have joined := (List.prefix_append_right_inj _).mp start
          obtain ⟨rfl, -⟩ := List.cons_prefix_cons.mp joined
          exact absurd (List.mem_append_right _ List.mem_cons_self) unjoined

/-- No opening is left where openings are broken up. -/
theorem not_opening_neutralize (text : Text) : ¬ tokenOpening <:+: neutralize text := by
  induction length : text.length using Nat.strong_induction_on generalizing text with
  | _ _ inductionHypothesis =>
  subst length
  cases text with
  | nil => decide
  | cons c rest =>
    cases dropped : Text.dropFront? tokenOpening (c :: rest) with
    | none =>
      have later := inductionHypothesis rest.length (Nat.lt_succ_self _) rest rfl
      have unstarted : ¬ tokenOpening <+: neutralize (c :: rest) := fun start =>
        Text.dropFront?_eq_none_iff.mp dropped (prefix_of_prefix_neutralize (by decide) start)
      rw [neutralize, Scan.replaceAll_cons dropped] at unstarted ⊢
      rw [List.infix_cons_iff]
      exact not_or.mpr ⟨unstarted, later⟩
    | some after =>
      have whole := Text.dropFront?_eq_some_iff.mp dropped
      have shorter : after.length < (c :: rest).length := by
        rw [whole, List.length_append]
        exact Nat.lt_add_of_pos_left (by decide)
      have later := inductionHypothesis after.length shorter after rfl
      have unjoined : wordJoiner ∉ tokenOpening := by decide
      -- An opening starts with an at sign, so that it starts nowhere in the letters.
      have letters : ¬ tokenOpening <:+: "BLOCK".toList ++ neutralize after := by
        rw [tokenOpening_eq] at later ⊢
        simp [List.infix_cons_iff, later]
      rw [whole, neutralize, Scan.replaceAll_append tokenOpening_ne_nil, List.append_assoc,
        List.cons_append, Text.infix_append_cons_iff unjoined]
      exact not_or.mpr ⟨by decide, letters⟩

/-! ## Restoration -/

/-- A text without tokens is restored as it is. -/
theorem restore_of_tokenFree {text : Text} (free : TokenFree text) (store : FragmentStore) :
    store.restore text = text := by
  refine Scan.editAhead_of_silent fun suffix within _ => ?_
  have unread : readToken suffix = none := by
    refine Option.eq_none_iff_forall_ne_some.mpr fun (digits, rest) read => ?_
    obtain ⟨nonempty, decimal, rfl⟩ := readToken_eq_some_iff.mp read
    have token : tokenOpening ++ (digits ++ tokenClosing) <+:
        tokenOpening ++ (digits ++ (tokenClosing ++ rest)) := ⟨rest, by simp⟩
    exact free digits nonempty decimal (token.isInfix.trans within.isInfix)
  rw [unread, Option.map_none]

end LatexMarkdown.Fragment
