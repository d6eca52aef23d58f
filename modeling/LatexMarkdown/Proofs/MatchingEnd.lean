import LatexMarkdown.Proofs.CodeBlock
import LatexMarkdown.Proofs.Offsets
import LatexMarkdown.Proofs.TaggedText
import Mathlib.Order.WellFounded

/-!
# The end of an environment

An environment ends at the first closing marker of its name before which the markers of the
name balance. The search keeps a depth and looks at every position once; that it finds this
marker, for any mixture of opening and closing markers, is a matter of counting how often each
of the two occurs before it. The first environment of a name is then the leftmost opening
marker that is not escaped, with arguments behind it and such an end behind these.
-/

namespace LatexMarkdown

namespace Text

theorem occurrences_cons_of_starts {pattern : Text} {c : Char} {rest : Text}
    (starts : pattern <+: c :: rest) :
    occurrences pattern (c :: rest) = 1 + occurrences pattern rest := by
  rw [occurrences, if_pos (startsWith_iff.mpr starts)]

theorem occurrences_cons_of_silent {pattern : Text} {c : Char} {rest : Text}
    (silent : ¬ pattern <+: c :: rest) :
    occurrences pattern (c :: rest) = occurrences pattern rest := by
  rw [occurrences, if_neg (mt startsWith_iff.mp silent), Nat.zero_add]

/-- What occurs in a front occurs in the whole text. -/
theorem occurrences_le_of_front (pattern : Text) {front text : Text} (isFront : front <+: text) :
    occurrences pattern front ≤ occurrences pattern text := by
  obtain ⟨behind, rfl⟩ := isFront
  induction front with
  | nil => exact Nat.zero_le _
  | cons c rest inductionHypothesis =>
    by_cases starts : pattern <+: c :: rest
    · have further : pattern <+: c :: (rest ++ behind) := starts.trans (List.prefix_append _ behind)
      rw [List.cons_append, occurrences_cons_of_starts starts, occurrences_cons_of_starts further]
      exact Nat.add_le_add_left inductionHypothesis 1
    · rw [occurrences_cons_of_silent starts, List.cons_append, occurrences]
      exact Nat.le_add_left_of_le inductionHypothesis

end Text

namespace Scan

open Text

/-! ## Markers among others -/

/-- A marker occurs where another one stands or behind it. -/
theorem IsMarker.occurrences_append {marker other : Text} (isMarker : IsMarker marker)
    (otherIsMarker : IsMarker other) (text : Text) :
    occurrences marker (other ++ text) =
      (if marker <+: other ++ text then 1 else 0) + occurrences marker text := by
  obtain ⟨word, rfl, plain⟩ := otherIsMarker
  have passed : occurrences marker (word ++ text) = occurrences marker text := by
    induction word with
    | nil => rfl
    | cons c others inductionHypothesis =>
      have silent := isMarker.not_prefix_inside plain (List.cons_ne_nil c others) text
      rw [List.cons_append] at silent ⊢
      rw [occurrences_cons_of_silent silent]
      exact inductionHypothesis fun member => plain (List.mem_cons_of_mem c member)
  rw [List.cons_append]
  split
  next starts => rw [occurrences_cons_of_starts starts, passed]
  next silent => rw [occurrences_cons_of_silent silent, passed, Nat.zero_add]

/-- No marker of an environment stands where the other one does. -/
theorem not_prefix_otherMarker (name rest : Text) :
    ¬ endMarker name <+: beginMarker name ++ rest ∧
      ¬ beginMarker name <+: endMarker name ++ rest := by
  have opening : beginMarker name = '\\' :: 'b' :: ("egin".toList ++ '{' :: name ++ ['}']) := rfl
  have closing : endMarker name = '\\' :: 'e' :: ("nd".toList ++ '{' :: name ++ ['}']) := rfl
  simp only [opening, closing, List.cons_append, List.cons_prefix_cons]
  exact ⟨fun start => absurd start.2.1 (by decide), fun start => absurd start.2.1 (by decide)⟩

/-! ## Balanced bodies -/

/-- With some environments of a name open, a body closes these and all that it opens itself;
no front of it closes more. -/
structure Balances (name : Text) (depth : Nat) (body : Text) : Prop where
  even : occurrences (endMarker name) body = depth + occurrences (beginMarker name) body
  inside : ∀ front, front <+: body →
    occurrences (endMarker name) front ≤ depth + occurrences (beginMarker name) front

section Balances

variable {name : Text} {depth : Nat}

theorem balances_nil_iff : Balances name depth [] ↔ depth = 0 := by
  constructor
  · exact fun balances => balances.even.symm
  · rintro rfl
    exact ⟨rfl, fun front isFront => by rw [List.prefix_nil.mp isFront]; exact Nat.zero_le _⟩

/-- A piece in front of a body changes the number of environments that are open before it. -/
theorem balances_append_iff (piece : Text) {body : Text} (opened closed : Nat) {next : Nat}
    (counts : ∀ front, front <+: body →
      occurrences (endMarker name) (piece ++ front) =
          closed + occurrences (endMarker name) front ∧
        occurrences (beginMarker name) (piece ++ front) =
          opened + occurrences (beginMarker name) front)
    (fits : closed ≤ depth) (level : depth + opened = next + closed) :
    Balances name depth (piece ++ body) ↔ Balances name next body := by
  have whole := counts body (List.prefix_refl body)
  constructor
  · rintro ⟨even, inside⟩
    refine ⟨by omega, fun front isFront => ?_⟩
    have within := inside (piece ++ front) ((List.prefix_append_right_inj piece).mpr isFront)
    have parts := counts front isFront
    omega
  · rintro ⟨even, inside⟩
    refine ⟨by omega, fun front isFront => ?_⟩
    rcases List.prefix_or_prefix_of_prefix isFront (List.prefix_append piece body) with
      inPiece | ⟨more, rfl⟩
    · have fewer := occurrences_le_of_front (endMarker name) inPiece
      have none := (counts [] List.nil_prefix).1
      rw [List.append_nil, occurrences] at none
      omega
    · have isMore := (List.prefix_append_right_inj piece).mp isFront
      have within := inside more isMore
      have parts := counts more isMore
      omega

variable (bare : '\\' ∉ name)

include bare

theorem balances_beginMarker_iff {body : Text} :
    Balances name depth (beginMarker name ++ body) ↔ Balances name (depth + 1) body := by
  refine balances_append_iff _ 1 0 (fun front _ => ?_) (Nat.zero_le _) rfl
  have opens := isMarker_beginMarker bare
  rw [(isMarker_endMarker bare).occurrences_append opens, opens.occurrences_append opens,
    if_neg (not_prefix_otherMarker name front).1, if_pos (List.prefix_append _ _)]
  exact ⟨rfl, rfl⟩

theorem balances_endMarker_iff {body : Text} :
    Balances name (depth + 1) (endMarker name ++ body) ↔ Balances name depth body := by
  refine balances_append_iff _ 0 1 (fun front _ => ?_)
    (Nat.le_add_left 1 depth) rfl
  have closes := isMarker_endMarker bare
  rw [(isMarker_beginMarker bare).occurrences_append closes, closes.occurrences_append closes,
    if_neg (not_prefix_otherMarker name front).2, if_pos (List.prefix_append _ _)]
  exact ⟨rfl, rfl⟩

/-- Outside all environments no closing marker stands in front of a balanced body. -/
theorem not_balances_endMarker {body : Text} : ¬ Balances name 0 (endMarker name ++ body) := by
  intro balances
  have closes := isMarker_endMarker bare
  have outnumbers := balances.inside (endMarker name ++ []) (by simp)
  rw [closes.occurrences_append closes, (isMarker_beginMarker bare).occurrences_append closes,
    if_pos (List.prefix_append _ _), if_neg (not_prefix_otherMarker name []).2] at outnumbers
  exact absurd outnumbers (by decide : ¬ 1 + 0 ≤ 0 + (0 + 0))

omit bare in
theorem balances_cons_iff {c : Char} {body : Text} (unopened : ¬ beginMarker name <+: c :: body)
    (unclosed : ¬ endMarker name <+: c :: body) :
    Balances name depth (c :: body) ↔ Balances name depth body := by
  refine balances_append_iff [c] 0 0 (fun front isFront => ?_)
    (Nat.zero_le _) rfl
  have within : c :: front <+: c :: body := List.cons_prefix_cons.mpr ⟨rfl, isFront⟩
  rw [List.singleton_append,
    occurrences_cons_of_silent fun starts => unclosed (starts.trans within),
    occurrences_cons_of_silent fun starts => unopened (starts.trans within), Nat.zero_add,
    Nat.zero_add]
  exact ⟨rfl, rfl⟩

end Balances

/-! ## The search -/

theorem map_keep_eq_some_iff {piece body after : Text} {found : Option (Text × Text)} :
    found.map (fun (inner, rest) => (piece ++ inner, rest)) = some (body, after) ↔
      ∃ inner, found = some (inner, after) ∧ body = piece ++ inner := by
  simp only [Option.map_eq_some_iff, Prod.exists, Prod.mk.injEq]
  constructor
  · rintro ⟨inner, rest, found, rfl, rfl⟩
    exact ⟨inner, found, rfl⟩
  · rintro ⟨inner, found, rfl⟩
    exact ⟨inner, after, found, rfl, rfl⟩

section Search

variable {name : Text} (bare : '\\' ∉ name)

include bare

/-- A marker at the start of a text is a front of all that stands before a closing marker. -/
theorem exists_append_of_marker {marker rest body after : Text} (isMarker : IsMarker marker)
    (nonempty : body ≠ []) (split : marker ++ rest = body ++ (endMarker name ++ after)) :
    ∃ more, body = marker ++ more := by
  obtain ⟨word, closing, -⟩ := isMarker_endMarker bare
  have starts : marker <+: body ++ '\\' :: (word ++ after) := by
    rw [← List.cons_append, ← closing, ← split]
    exact List.prefix_append marker rest
  obtain ⟨more, same⟩ := (isMarker.prefix_append_iff nonempty _).mp starts
  exact ⟨more, same.symm⟩

omit bare in
/-- If the search goes on behind a piece, and every body that may end is longer, then it splits
the text behind the piece as it splits what follows. -/
theorem splitAtClosing_iff_behind (piece : Text) {depth next : Nat} {rest body after : Text}
    (goesOn : splitAtClosing (beginMarker name) (endMarker name) depth 0 (piece ++ rest) =
      (splitAtClosing (beginMarker name) (endMarker name) next 0 rest).map
        fun (found, behind) => (piece ++ found, behind))
    (level : ∀ more, more <+: rest →
      (Balances name depth (piece ++ more) ↔ Balances name next more))
    (longer : piece ++ rest = body ++ (endMarker name ++ after) → Balances name depth body →
      ∃ more, body = piece ++ more)
    (behind : ∀ more, splitAtClosing (beginMarker name) (endMarker name) next 0 rest =
      some (more, after) ↔ rest = more ++ (endMarker name ++ after) ∧ Balances name next more) :
    splitAtClosing (beginMarker name) (endMarker name) depth 0 (piece ++ rest) =
        some (body, after) ↔
      piece ++ rest = body ++ (endMarker name ++ after) ∧ Balances name depth body := by
  rw [goesOn, map_keep_eq_some_iff]
  constructor
  · rintro ⟨more, found, rfl⟩
    obtain ⟨rfl, balances⟩ := (behind more).mp found
    exact ⟨(List.append_assoc ..).symm, (level more (List.prefix_append _ _)).mpr balances⟩
  · rintro ⟨whole, balances⟩
    obtain ⟨more, rfl⟩ := longer whole balances
    rw [List.append_assoc] at whole
    obtain rfl := List.append_cancel_left whole
    have within := (level more (List.prefix_append _ _)).mp balances
    exact ⟨more, (behind more).mpr ⟨rfl, within⟩, rfl⟩

/-- The search for the closing marker splits a text exactly behind a balanced body. -/
theorem splitAtClosing_iff {depth : Nat} {text body after : Text} :
    splitAtClosing (beginMarker name) (endMarker name) depth 0 text = some (body, after) ↔
      text = body ++ (endMarker name ++ after) ∧ Balances name depth body := by
  induction length : text.length using Nat.strong_induction_on generalizing depth text body with
  | _ length inductionHypothesis =>
  subst length
  have shorter {piece : Text} (rest : Text) (filled : piece ≠ []) :
      rest.length < (piece ++ rest).length := by
    rw [List.length_append]
    exact Nat.lt_add_of_pos_left (List.length_pos_of_ne_nil filled)
  by_cases closed : endMarker name <+: text
  · obtain ⟨rest, rfl⟩ := closed
    have closes := isMarker_endMarker bare
    cases depth with
    | zero =>
      rw [splitAtClosing_ends (endMarker_ne_nil name), Option.some.injEq, Prod.mk.injEq]
      constructor
      · rintro ⟨rfl, rfl⟩
        exact ⟨rfl, balances_nil_iff.mpr rfl⟩
      · rintro ⟨split, balances⟩
        by_cases empty : body = []
        · subst empty
          exact ⟨rfl, List.append_cancel_left split⟩
        · obtain ⟨more, rfl⟩ := exists_append_of_marker bare closes empty split
          exact absurd balances (not_balances_endMarker bare)
    | succ depth =>
      refine splitAtClosing_iff_behind _ (splitAtClosing_closing (endMarker_ne_nil name) depth rest)
        (fun _ _ => balances_endMarker_iff bare) (fun split balances => ?_)
        fun _ => inductionHypothesis _ (shorter rest (endMarker_ne_nil name)) rfl
      refine exists_append_of_marker bare closes ?_ split
      rintro rfl
      exact Nat.succ_ne_zero depth (balances_nil_iff.mp balances)
  have nonempty (split : text = body ++ (endMarker name ++ after)) : body ≠ [] := by
    rintro rfl
    exact closed ⟨after, split.symm⟩
  by_cases opened : beginMarker name <+: text
  · obtain ⟨rest, rfl⟩ := opened
    exact splitAtClosing_iff_behind _ (splitAtClosing_beginMarker bare depth rest)
      (fun _ _ => balances_beginMarker_iff bare)
      (fun split _ =>
        exists_append_of_marker bare (isMarker_beginMarker bare) (nonempty split) split)
      fun _ => inductionHypothesis _ (shorter rest (beginMarker_ne_nil name)) rfl
  cases text with
  | nil =>
    refine iff_of_false nofun fun found => ?_
    exact nonempty found.1 (List.append_eq_nil_iff.mp found.1.symm).1
  | cons c rest =>
    have silent {more : Text} (isFront : more <+: rest) :
        ¬ beginMarker name <+: c :: more ∧ ¬ endMarker name <+: c :: more := by
      have within : c :: more <+: c :: rest := List.cons_prefix_cons.mpr ⟨rfl, isFront⟩
      exact ⟨fun starts => opened (starts.trans within), fun starts => closed (starts.trans within)⟩
    refine splitAtClosing_iff_behind [c]
      (splitAtClosing_pass (fun suffix isSuffix filled => ?_) depth)
      (fun more isFront => balances_cons_iff (silent isFront).1 (silent isFront).2)
      (fun split _ => ?_) fun _ => inductionHypothesis _ (Nat.lt_succ_self _) rfl
    · rcases List.suffix_cons_iff.mp isSuffix with rfl | empty
      · exact ⟨opened, closed⟩
      · exact absurd (List.suffix_nil.mp empty) filled
    · obtain ⟨d, more, rfl⟩ := List.exists_cons_of_ne_nil (nonempty split)
      obtain ⟨rfl, -⟩ := List.cons.inj split
      exact ⟨more, rfl⟩

end Search

/-! ## Ends and environments at offsets -/

/-- A closing marker of a name stands at a position, and from the start to it the markers of the
name balance. -/
def IsMatchingEnd (name text : Text) (start position : Nat) : Prop :=
  ∃ before body after, text = before ++ (body ++ (endMarker name ++ after)) ∧
    utf8Length before = start ∧ position = start + utf8Length body ∧ Balances name 0 body

/-- An opening marker that is not escaped stands at an offset, with arguments behind it that
reach to another offset. -/
structure OpensAt (name text : Text) (maxOptions required start bodyStart : Nat)
    (arguments : Arguments) : Prop where
  unescaped : isEscapedAt false text start = false
  read : ∃ after inside, suffixAt? text start = some (beginMarker name ++ after) ∧
    readArguments ⟨false, maxOptions, required⟩ after = some (arguments, inside) ∧
      suffixAt? text bodyStart = some inside

/-- A complete environment stands in a text: it opens, and from the start of its body on there
is a matching end. -/
def IsEnvironmentAt (name text : Text) (maxOptions required : Nat) (environment : Environment) :
    Prop :=
  ∃ bodyStart position,
    OpensAt name text maxOptions required environment.start bodyStart environment.arguments ∧
      IsMatchingEnd name text bodyStart position ∧
        StandsAt environment.body text bodyStart position ∧
          environment.stop = position + utf8Length (endMarker name)

section Offsets

variable {name text : Text} {maxOptions required : Nat}

/-- Whether a position is escaped is a matter of the front before it. -/
theorem isEscapedAt_append (escaped : Bool) (before after : Text) :
    isEscapedAt escaped (before ++ after) (utf8Length before) = escapesAfter escaped before := by
  induction before generalizing escaped with
  | nil => cases after <;> rfl
  | cons c rest inductionHypothesis =>
    have wide := c.utf8Size_pos
    rw [List.cons_append, utf8Length, isEscapedAt, if_neg (by omega), if_neg (by omega),
      Nat.add_sub_cancel_left, inductionHypothesis, escapesAfter_cons]

theorem Cursor.advanceOver_start_offset (text : Text) :
    (Cursor.start.advanceOver text).offset = utf8Length text := by
  have moves (cursor : Cursor) : (cursor.advanceOver text).offset =
      cursor.offset + utf8Length text := by
    induction text generalizing cursor with
    | nil => rfl
    | cons c rest inductionHypothesis =>
      rw [utf8Length, ← Nat.add_assoc]
      exact inductionHypothesis (cursor.advance c)
  exact (moves Cursor.start).trans (Nat.zero_add _)

/-- At an offset a search starts as if it had gone over what stands before. -/
theorem Cursor.at_offset_eq (before after : Text) :
    (⟨utf8Length before, isEscapedAt false (before ++ after) (utf8Length before)⟩ : Cursor) =
      Cursor.start.advanceOver before := by
  rw [isEscapedAt_append, ← Cursor.advanceOver_start_offset]
  exact congrArg (Cursor.mk _) (Cursor.advanceOver_escaped_eq Cursor.start before).symm

section Start

variable {environment : Environment}

/-- No offset inside a character is the start of an environment. -/
theorem IsEnvironmentAt.start_cases {before rest : Text} {c : Char}
    (stands : IsEnvironmentAt name (before ++ c :: rest) maxOptions required environment)
    (behind : utf8Length before ≤ environment.start) :
    environment.start = utf8Length before ∨ utf8Length (before ++ [c]) ≤ environment.start := by
  obtain ⟨_, _, opens, -⟩ := stands
  obtain ⟨after, inside, found, -⟩ := opens.read
  obtain ⟨front, split, size⟩ := suffixAt?_eq_some_iff.mp found
  rw [← size] at behind ⊢
  obtain ⟨more, rfl⟩ := prefix_of_utf8Length_le ⟨_, rfl⟩ ⟨_, split.symm⟩ behind
  rw [List.append_assoc] at split
  cases more with
  | nil => exact .inl (by rw [List.append_nil])
  | cons d others =>
    obtain ⟨rfl, -⟩ := List.cons.inj (List.append_cancel_left split)
    refine .inr ?_
    simp only [utf8Length_append, utf8Length]
    omega

/-- No environment starts at the end of a text. -/
theorem IsEnvironmentAt.start_lt
    (stands : IsEnvironmentAt name text maxOptions required environment) :
    environment.start < utf8Length text := by
  obtain ⟨_, _, opens, -⟩ := stands
  obtain ⟨after, inside, found, -⟩ := opens.read
  obtain ⟨front, rfl, size⟩ := suffixAt?_eq_some_iff.mp found
  rw [← size]
  exact utf8Length_lt_append front
    (List.append_ne_nil_of_left_ne_nil (beginMarker_ne_nil name) after)

end Start

variable (bare : '\\' ∉ name)

include bare

/-- The matching end at an offset is the closing marker that is found from there. -/
theorem findClosingAt_iff {start position stop : Nat} :
    findClosingAt name text start = some (position, stop) ↔
      IsMatchingEnd name text start position ∧ stop = position + utf8Length (endMarker name) := by
  simp only [findClosingAt, readBody, IsMatchingEnd, Option.bind_eq_bind, Option.bind_eq_some_iff,
    Option.some.injEq, Prod.mk.injEq, Prod.exists, suffixAt?_eq_some_iff, splitAtClosing_iff bare]
  constructor
  · rintro ⟨suffix, ⟨before, rfl, size⟩, body, after, ⟨rfl, balances⟩, rfl, rfl⟩
    exact ⟨⟨before, body, after, rfl, size, rfl, balances⟩, rfl⟩
  · rintro ⟨⟨before, body, after, rfl, size, rfl, balances⟩, rfl⟩
    exact ⟨_, ⟨before, rfl, size⟩, body, after, ⟨rfl, balances⟩, rfl, rfl⟩

/-- An environment is read behind a front of a text exactly where one stands. -/
theorem exists_readEnvironment_iff {before suffix : Text} {environment : Environment} :
    (∃ rest, readEnvironment name maxOptions required (Cursor.start.advanceOver before) suffix =
      some (environment, rest)) ↔
        IsEnvironmentAt name (before ++ suffix) maxOptions required environment ∧
          environment.start = utf8Length before := by
  have escapes : isEscapedAt false (before ++ suffix) (utf8Length before) =
      (Cursor.start.advanceOver before).escaped := by
    rw [isEscapedAt_append, Cursor.advanceOver_escaped_eq]
    rfl
  simp only [readEnvironment_iff]
  constructor
  · rintro ⟨rest, matched, rfl, unescaped, ⟨piece, rfl, spells⟩, balanced, start, stop⟩
    rw [Cursor.advanceOver_start_offset] at start stop
    have inside := ((splitAtClosing_iff bare).mp balanced).2
    have split : before ++ (beginMarker name ++ (piece ++ (environment.body ++ endMarker name)) ++
        rest) = before ++ beginMarker name ++ piece ++
          (environment.body ++ (endMarker name ++ rest)) := by simp
    refine ⟨⟨utf8Length (before ++ beginMarker name ++ piece), _, ⟨?_, _, _, ?_, spells.read, ?_⟩,
      ⟨_, _, _, split, rfl, rfl, inside⟩, ⟨_, _, split, rfl, rfl⟩, ?_⟩, start⟩
    · rw [start, escapes, unescaped]
    · rw [start, suffixAt?_append]
      simp
    · rw [split, suffixAt?_append]
    · rw [stop]
      simp only [utf8Length_append]
      omega
  · rintro ⟨⟨bodyStart, position, ⟨unescaped, after, inside, opened, read, within⟩,
      ⟨outside, body, rest, bodySplit, bodySize, rfl, balances⟩,
      ⟨ahead, last, bodyStands, aheadSize, samePosition⟩, stop⟩, start⟩
    obtain ⟨piece, spells, rfl⟩ := readArguments_spells read
    rw [start, suffixAt?_append] at opened
    obtain rfl := Option.some.inj opened
    rw [start, escapes] at unescaped
    obtain ⟨front, frontSplit, frontSize⟩ := suffixAt?_eq_some_iff.mp within
    obtain ⟨rfl, rfl⟩ := eq_of_utf8Length_eq (frontSplit.symm.trans bodySplit)
      (frontSize.trans bodySize.symm)
    obtain ⟨rfl, sameBody⟩ := eq_of_utf8Length_eq (bodySplit.symm.trans bodyStands)
      (bodySize.trans aheadSize.symm)
    obtain ⟨rfl, -⟩ := eq_of_utf8Length_eq sameBody (Nat.add_left_cancel samePosition)
    have reached : front = before ++ (beginMarker name ++ piece) :=
      List.append_cancel_right (frontSplit.symm.trans (by simp))
    refine ⟨rest, beginMarker name ++ (piece ++ (environment.body ++ endMarker name)), by simp,
      unescaped, ⟨piece, rfl, spells⟩, (splitAtClosing_iff bare).mpr ⟨rfl, balances⟩, ?_, ?_⟩
    · rw [start, Cursor.advanceOver_start_offset]
    · rw [stop, Cursor.advanceOver_start_offset, ← bodySize, reached]
      simp only [utf8Length_append]
      omega

/-- From the end of a front on, the search finds the leftmost environment that stands there. -/
theorem findEnvironmentFrom_iff {before suffix : Text} {environment : Environment} :
    findEnvironmentFrom name maxOptions required (Cursor.start.advanceOver before) 0 suffix =
        some environment ↔
      IsEnvironmentAt name (before ++ suffix) maxOptions required environment ∧
        utf8Length before ≤ environment.start ∧
          ∀ other, IsEnvironmentAt name (before ++ suffix) maxOptions required other →
            utf8Length before ≤ other.start → environment.start ≤ other.start := by
  induction suffix generalizing before with
  | nil =>
    refine iff_of_false nofun fun ⟨stands, behind, _⟩ => ?_
    have inside := stands.start_lt
    rw [List.append_nil] at inside
    exact absurd inside (Nat.not_lt_of_le behind)
  | cons c rest inductionHypothesis =>
    cases read : readEnvironment name maxOptions required (Cursor.start.advanceOver before)
        (c :: rest) with
    | some reading =>
      obtain ⟨here, after⟩ := reading
      have found : findEnvironmentFrom name maxOptions required
          (Cursor.start.advanceOver before) 0 (c :: rest) = some here := by
        rw [findEnvironmentFrom, read]
      obtain ⟨stands, start⟩ := (exists_readEnvironment_iff bare).mp ⟨after, read⟩
      rw [found, Option.some.injEq]
      constructor
      · rintro rfl
        exact ⟨stands, Nat.le_of_eq start.symm, fun _ _ behind => start ▸ behind⟩
      · rintro ⟨otherStands, behind, leftmost⟩
        have same : environment.start = utf8Length before :=
          Nat.le_antisymm (start ▸ leftmost here stands (Nat.le_of_eq start.symm)) behind
        obtain ⟨last, otherRead⟩ := (exists_readEnvironment_iff bare).mpr ⟨otherStands, same⟩
        exact (Prod.mk.inj (Option.some.inj (read.symm.trans otherRead))).1
    | none =>
      have moved : (Cursor.start.advanceOver before).advance c =
          Cursor.start.advanceOver (before ++ [c]) := (Cursor.advanceOver_append _ before [c]).symm
      have further (other : Environment)
          (stands : IsEnvironmentAt name (before ++ c :: rest) maxOptions required other) :
          utf8Length before ≤ other.start ↔ utf8Length (before ++ [c]) ≤ other.start := by
        refine ⟨fun behind => (stands.start_cases behind).resolve_left fun start => ?_,
          Nat.le_trans (utf8Length_le_append before [c])⟩
        obtain ⟨last, found⟩ := (exists_readEnvironment_iff bare).mpr ⟨stands, start⟩
        rw [read] at found
        cases found
      rw [findEnvironmentFrom_unread bare read, moved, inductionHypothesis, List.append_assoc,
        List.singleton_append]
      refine and_congr_right fun stands => and_congr (further _ stands).symm ?_
      exact forall₂_congr fun other otherStands => by rw [further _ otherStands]

/-- From the end of a front on, the search finds nothing exactly if no environment stands there. -/
theorem findEnvironmentFrom_eq_none_iff {before suffix : Text} :
    findEnvironmentFrom name maxOptions required (Cursor.start.advanceOver before) 0 suffix = none ↔
      ∀ environment, IsEnvironmentAt name (before ++ suffix) maxOptions required environment →
        environment.start < utf8Length before := by
  constructor
  · intro unfound environment stands
    by_contra behind
    -- Among the environments that stand there, one is the leftmost.
    obtain ⟨first, ⟨firstStands, firstBehind⟩, leftmost⟩ :=
      (measure Environment.start).wf.has_min
        {other | IsEnvironmentAt name (before ++ suffix) maxOptions required other ∧
          utf8Length before ≤ other.start} ⟨environment, stands, Nat.le_of_not_lt behind⟩
    have found := (findEnvironmentFrom_iff bare).mpr ⟨firstStands, firstBehind,
      fun other otherStands otherBehind =>
        Nat.le_of_not_lt (leftmost other ⟨otherStands, otherBehind⟩)⟩
    rw [unfound] at found
    cases found
  · intro none
    cases found : findEnvironmentFrom name maxOptions required (Cursor.start.advanceOver before)
        0 suffix with
    | none => rfl
    | some environment =>
      obtain ⟨stands, behind, -⟩ := (findEnvironmentFrom_iff bare).mp found
      exact absurd (none environment stands) (Nat.not_lt_of_le behind)

end Offsets

/-- From an offset on, the closing marker that is found is the first one before which the
markers of its name balance; the environment that is found is the leftmost one that opens,
reads its arguments and has such an end. Where nothing is found there is no such marker, and
no such environment. -/
theorem findClosingAt_findEnvironmentAt_iff {name text : Text} {start : Nat}
    (bare : '\\' ∉ name) (boundary : IsBoundary text start) (maxOptions required : Nat) :
    (∀ position stop, findClosingAt name text start = some (position, stop) ↔
      IsMatchingEnd name text start position ∧
        (∀ earlier, IsMatchingEnd name text start earlier → position ≤ earlier) ∧
          stop = position + utf8Length (endMarker name)) ∧
    (findClosingAt name text start = none ↔ ∀ position, ¬ IsMatchingEnd name text start position) ∧
    (∀ environment, findEnvironmentAt name maxOptions required text start = some environment ↔
      IsEnvironmentAt name text maxOptions required environment ∧ start ≤ environment.start ∧
        ∀ other, IsEnvironmentAt name text maxOptions required other → start ≤ other.start →
          environment.start ≤ other.start) ∧
    (findEnvironmentAt name maxOptions required text start = none ↔
      ∀ environment, IsEnvironmentAt name text maxOptions required environment →
        environment.start < start) := by
  obtain ⟨before, suffix, rfl, rfl⟩ := boundary
  have closing := @findClosingAt_iff name (before ++ suffix) bare (utf8Length before)
  have search : findEnvironmentAt name maxOptions required (before ++ suffix) (utf8Length before) =
      findEnvironmentFrom name maxOptions required (Cursor.start.advanceOver before) 0 suffix := by
    rw [findEnvironmentAt, suffixAt?_append, ← Cursor.at_offset_eq before suffix]
    rfl
  refine ⟨fun position stop => ?_, ?_, fun environment => ?_, ?_⟩
  · rw [closing]
    refine and_congr_right fun ends => iff_and_self.mpr fun _ earlier otherEnds => ?_
    -- The search gives one answer, so there is no other marker before which the markers balance.
    have same := (closing.mpr ⟨otherEnds, rfl⟩).symm.trans (closing.mpr ⟨ends, rfl⟩)
    exact Nat.le_of_eq (Prod.mk.inj (Option.some.inj same)).1.symm
  · rw [Option.eq_none_iff_forall_ne_some]
    refine ⟨fun unfound position ends => ?_, fun none found read => ?_⟩
    · exact unfound _ (closing.mpr ⟨ends, rfl⟩)
    · exact none found.1 (closing.mp read).1
  · rw [search, findEnvironmentFrom_iff bare]
  · rw [search, findEnvironmentFrom_eq_none_iff bare]

/-- An environment in another one of its name does not end that one. -/
theorem findEnvironmentAt_outer :
    let text := "é\\begin{e}\\begin{e}\\end{e}x\\end{e}\\end{e}".toList
    '\\' ∉ "e".toList ∧ IsBoundary text 2 ∧ IsBoundary text 11 ∧
      IsMatchingEnd "e".toList text 11 28 ∧
        IsEnvironmentAt "e".toList text 0 0
          ⟨2, 35, ⟨false, [], []⟩, "\\begin{e}\\end{e}x".toList⟩ := by
  have bare : '\\' ∉ "e".toList := by decide
  have boundary : IsBoundary "é\\begin{e}\\begin{e}\\end{e}x\\end{e}\\end{e}".toList 2 := by decide
  have inside : IsBoundary "é\\begin{e}\\begin{e}\\end{e}x\\end{e}\\end{e}".toList 11 := by decide
  obtain ⟨closings, -⟩ := findClosingAt_findEnvironmentAt_iff bare inside 0 0
  obtain ⟨-, -, environments, -⟩ := findClosingAt_findEnvironmentAt_iff bare boundary 0 0
  exact ⟨bare, boundary, inside, ((closings 28 35).mp (by decide +kernel)).1,
    ((environments _).mp (by decide +kernel)).1⟩

end Scan

end LatexMarkdown
