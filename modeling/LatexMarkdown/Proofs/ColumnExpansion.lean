import LatexMarkdown.Proofs.Counting
import LatexMarkdown.Table.Column
import Mathlib.Data.Nat.Digits.Defs

/-!
# The columns that a specification spells out

A specification spells out a column for every letter of an alignment, and the
columns of a repetition as often as its count says, however deep repetitions
nest and however many columns come of it. The columns of a table are the first
ones of these: what is cut off early, in the count of a repetition, in the
repetition or inside it, would not have been reached.
-/

namespace LatexMarkdown.Table

/-! ## Counts -/

/-- What follows a plus sign, where there is one. -/
def unsigned : Text → Text
  | '+' :: digits => digits
  | digits => digits

/-- The number that a count spells: digits alone or behind a plus sign, for a number of at most
64 bits. -/
def spelledNumber? (count : Text) : Option Nat :=
  let digits := unsigned (Text.trim count)
  let number := Nat.ofDigits 10 (digits.reverse.map fun c => c.toNat - '0'.toNat)
  if digits ≠ [] ∧ (∀ c ∈ digits, '0' ≤ c ∧ c ≤ '9') ∧ number < 2 ^ 64 then some number else none

/-- How often a count asks for a repetition: once if it spells no number. -/
def spelledCount (count : Text) : Nat :=
  (spelledNumber? count).getD 1

/-- The value of digits is the number that they spell in base ten. -/
theorem digitsValue_eq_ofDigits (digits : Text) :
    Text.digitsValue digits =
      Nat.ofDigits 10 (digits.reverse.map fun c => c.toNat - '0'.toNat) := by
  induction digits using List.reverseRecOn with
  | nil => rfl
  | append_singleton digits c inductionHypothesis =>
    rw [Text.digitsValue] at inductionHypothesis ⊢
    rw [List.foldl_append, List.reverse_append, inductionHypothesis]
    simp only [List.foldl_cons, List.foldl_nil, List.reverse_singleton, List.singleton_append,
      List.map_cons, Nat.ofDigits_cons]
    omega

/-- A count is read as the number that it spells. -/
theorem readCount_eq_spelledCount (count : Text) : readCount count = spelledCount count := by
  have plus (text : Text) : (Text.dropFront? ['+'] text).getD text = unsigned text := by
    cases text with
    | nil => rfl
    | cons c rest =>
      by_cases signed : '+' = c
      · subst signed
        rfl
      · simp only [Text.dropFront?, if_neg signed, Option.getD_none]
        rw [unsigned]
        exact fun digits same => signed (List.cons.inj same).1.symm
  have digit (c : Char) : c.isDigit = true ↔ '0' ≤ c ∧ c ≤ '9' := by
    have range : c.isDigit = (decide ('0' ≤ c) && decide (c ≤ '9')) := rfl
    rw [range, Bool.and_eq_true, decide_eq_true_eq, decide_eq_true_eq]
  have greatest : Count.greatest = 2 ^ 64 - 1 := by decide
  rw [readCount, spelledCount, spelledNumber?, plus, Count.ofDigits?, digitsValue_eq_ofDigits,
    greatest]
  generalize unsigned (Text.trim count) = digits
  generalize Nat.ofDigits 10 (digits.reverse.map fun c => c.toNat - '0'.toNat) = number
  have large : 2 ^ 64 - 1 < number ↔ ¬ number < 2 ^ 64 := by omega
  have unspelled : (digits.isEmpty || !digits.all Char.isDigit ||
      decide (2 ^ 64 - 1 < number)) = true ↔
        ¬ (digits ≠ [] ∧ (∀ c ∈ digits, '0' ≤ c ∧ c ≤ '9') ∧ number < 2 ^ 64) := by
    simp only [Bool.or_eq_true, List.isEmpty_iff, Bool.not_eq_true', ← Bool.not_eq_true,
      List.all_eq_true, digit, decide_eq_true_eq, large, not_and_or, not_not, or_assoc]
  simp only [unspelled, ite_not]

/-! ## Repetitions without a bound -/

/-- The count and the inside of the repetition behind a star, and the text after it. -/
def readRepetition (text : Text) : Option (Text × Text × Text) := do
  let (count, rest) <- Scan.readBraced (Text.skipGap text)
  let (inner, after) <- Scan.readBraced (Text.skipGap rest)
  some (count, inner, after)

/-- A gap and a braced group behind it are longer than the inside of the group and the text
after it together. -/
theorem length_of_readBraced {text inner rest : Text}
    (read : Scan.readBraced (Text.skipGap text) = some (inner, rest)) :
    inner.length + rest.length < text.length := by
  have skipped := (Scan.skipGap_suffix text).length_le
  rw [Scan.readBraced_eq_append read] at skipped
  simp only [List.length_cons, List.length_append] at skipped
  omega

theorem length_of_readRepetition {text count inner after : Text}
    (read : readRepetition text = some (count, inner, after)) :
    inner.length + after.length < text.length := by
  simp only [readRepetition, Option.bind_eq_bind, Option.bind_eq_some_iff, Option.some.injEq,
    Prod.mk.injEq, Prod.exists] at read
  obtain ⟨count, rest, counted, inner, after, repeated, rfl, rfl, rfl⟩ := read
  have := length_of_readBraced counted
  have := length_of_readBraced repeated
  omega

theorem readRepetition_suffix {text count inner after : Text}
    (read : readRepetition text = some (count, inner, after)) : after <:+ text := by
  simp only [readRepetition, Option.bind_eq_bind, Option.bind_eq_some_iff, Option.some.injEq,
    Prod.mk.injEq, Prod.exists] at read
  obtain ⟨count, rest, counted, inner, after, repeated, rfl, rfl, rfl⟩ := read
  exact ((Scan.readBraced_suffix repeated).trans (Scan.skipGap_suffix rest)).trans
    ((Scan.readBraced_suffix counted).trans (Scan.skipGap_suffix text))

/-- The text after an argument that may follow a gap is a suffix. -/
theorem skipBraced_suffix (text : Text) : (skipBraced text).getD text <:+ text := by
  rw [skipBraced]
  cases read : Scan.readBraced (Text.skipGap text) with
  | none => exact List.suffix_refl text
  | some pair => exact (Scan.readBraced_suffix read).trans (Scan.skipGap_suffix text)

/-- The alignment of the column that a letter stands for. -/
def letterAlignment? (c : Char) : Option Alignment :=
  if c ∈ ['l', 'p', 'm', 'b'] then some .left
  else if c = 'c' then some .center
  else if c = 'r' then some .right
  else if c ∈ ['X', 'S'] then some .auto
  else none

/-- Whether a braced argument of a character belongs to it: the width of a column, or
material between columns. -/
def takesArgument (c : Char) : Bool :=
  c ∈ ['p', 'm', 'b', '@', '!', '>', '<']

/-- All columns that a specification spells out. -/
def spelledColumns : Text → List Alignment
  | [] => []
  | c :: rest =>
    if c = '*' then
      match _read : readRepetition rest with
      | none => spelledColumns rest
      | some (count, inner, after) =>
        (List.replicate (spelledCount count) (spelledColumns inner)).flatten ++
          spelledColumns after
    else
      (letterAlignment? c).toList ++
        spelledColumns (if takesArgument c then (skipBraced rest).getD rest else rest)
termination_by text => text.length
decreasing_by
  · exact Nat.lt_succ_self _
  · have := length_of_readRepetition _read
    rw [List.length_cons]
    omega
  · have := length_of_readRepetition _read
    rw [List.length_cons]
    omega
  · rw [List.length_cons]
    split
    · exact Nat.lt_succ_of_le (skipBraced_suffix rest).length_le
    · exact Nat.lt_succ_self _

/-! ## First columns -/

section

variable {α : Type} {first first' second second' : List α} {limit : Nat}

/-- The first entries of a list and of what follows it give the first entries of both
together. -/
theorem take_append_congr (before : first.take limit = first'.take limit)
    (behind : second.take limit = second'.take limit) :
    (first ++ second).take limit = (first' ++ second').take limit := by
  have lengths : min limit first.length = min limit first'.length := by
    simpa only [List.length_take] using congrArg List.length before
  have remaining : limit - first.length = limit - first'.length := by omega
  have shorter (items : List α) :
      items.take (limit - first.length) = (items.take limit).take (limit - first.length) := by
    rw [List.take_take, Nat.min_eq_left (Nat.sub_le _ _)]
  rw [List.take_append, List.take_append, before, ← remaining, shorter second, behind,
    ← shorter second']

/-- Repetitions behind the first entries do not show in them. -/
theorem take_flatten_replicate_min {enough : Nat} (reaches : limit ≤ enough * first.length)
    (count : Nat) :
    (List.replicate (min count enough) first).flatten.take limit =
      (List.replicate count first).flatten.take limit := by
  rcases Nat.le_total count enough with few | many
  · rw [Nat.min_eq_left few]
  · have length : (List.replicate enough first).flatten.length = enough * first.length := by
      rw [List.length_flatten, List.map_replicate, List.sum_replicate_nat]
    obtain ⟨further, rfl⟩ := Nat.exists_eq_add_of_le many
    rw [Nat.min_eq_right many, List.replicate_add, List.flatten_append,
      List.take_append_of_le_length (length ▸ reaches)]

end

section

variable {inner spelled : List Alignment}

/-- Columns that are added to enough columns do not show in the first ones. -/
theorem take_repeatColumns (same : inner.take maxSpan = spelled.take maxSpan) (count : Nat)
    (built : List Alignment) :
    (repeatColumns inner count built).take maxSpan =
      (built ++ (List.replicate count spelled).flatten).take maxSpan := by
  induction count generalizing built with
  | zero => rw [repeatColumns, List.replicate_zero, List.flatten_nil, List.append_nil]
  | succ count inductionHypothesis =>
    rw [repeatColumns]
    split
    next enough => rw [List.take_append_of_le_length enough]
    · rw [inductionHypothesis, List.append_assoc, List.replicate_succ, List.flatten_cons]
      exact take_append_congr rfl (take_append_congr same rfl)

/-- A repetition adds the first columns of the full one. -/
theorem take_addRepetition (same : inner = spelled.take maxSpan) (count : Nat)
    (built : List Alignment) :
    (addRepetition count inner built).take maxSpan =
      (built ++ (List.replicate count spelled).flatten).take maxSpan := by
  rw [addRepetition]
  cases spelled with
  | nil => simp [same]
  | cons column others =>
    have first : inner.take maxSpan = (column :: others).take maxSpan := by
      rw [same, List.take_take, Nat.min_self]
    have filled : inner.isEmpty = false := by
      rw [same]
      rfl
    have reaches : maxSpan ≤ maxSpan * (column :: others).length :=
      Nat.le_mul_of_pos_right maxSpan (Nat.succ_pos others.length)
    rw [filled, if_neg Bool.false_ne_true, take_repeatColumns first]
    exact take_append_congr rfl (take_flatten_replicate_min reaches count)

end

/-! ## The bounded reading -/

section

variable (nested : Text → List Alignment)

/-- Characters of a column that was read are passed over. -/
theorem columnsFrom_covered (built : List Alignment) (covered rest : Text) :
    columnsFrom nested covered.length built (covered ++ rest) =
      columnsFrom nested 0 built rest := by
  induction covered with
  | nil => rfl
  | cons c covered inductionHypothesis => exact inductionHypothesis

theorem columnsFrom_cons {c : Char} {rest after : Text} {built further : List Alignment}
    (column : readColumn nested built c rest = (further, after)) (suffix : after <:+ rest) :
    columnsFrom nested 0 built (c :: rest) = columnsFrom nested 0 further after := by
  obtain ⟨covered, rfl⟩ := suffix
  have passed := columnsFrom_covered nested further covered after
  simp only [columnsFrom, column, List.length_append, Nat.add_sub_cancel, passed]

/-- A star starts a repetition, if two groups follow it. -/
theorem readColumn_star (built : List Alignment) (rest : Text) :
    readColumn nested built '*' rest =
      match readRepetition rest with
      | none => (built, rest)
      | some (count, inner, after) =>
        (addRepetition (readCount count) (nested inner) built, after) := by
  rw [readColumn, readRepetition]
  cases Scan.readBraced (Text.skipGap rest) with
  | none => rfl
  | some counted =>
    cases read : Scan.readBraced (Text.skipGap counted.2) with
    | none => simp [read]
    | some inner => simp [read]

/-- Every other character stands for a column or for none, and takes its argument with it. -/
theorem readColumn_of_ne (built : List Alignment) {c : Char} (different : c ≠ '*')
    (rest : Text) :
    readColumn nested built c rest = (built ++ (letterAlignment? c).toList,
      if takesArgument c then (skipBraced rest).getD rest else rest) := by
  simp only [readColumn, letterAlignment?, takesArgument]
  grind

end

/-- With repetitions that are read right in their first columns, so is a specification, behind
any columns that are built already. -/
theorem take_columnsFrom {nested : Text → List Alignment} {text : Text}
    (reads : ∀ inner : Text, inner.length < text.length →
      nested inner = (spelledColumns inner).take maxSpan) (built : List Alignment) :
    (columnsFrom nested 0 built text).take maxSpan =
      (built ++ spelledColumns text).take maxSpan := by
  fun_induction spelledColumns text generalizing built with
  | case1 => rw [columnsFrom, List.append_nil]
  | case2 rest unread later =>
    have column := readColumn_star nested built rest
    rw [unread] at column
    rw [columnsFrom_cons nested column (List.suffix_refl rest)]
    exact later (fun inner shorter => reads inner (Nat.lt_succ_of_lt shorter)) built
  | case3 rest count inner after read _ later =>
    have lengths := length_of_readRepetition read
    have column := readColumn_star nested built rest
    rw [read] at column
    rw [columnsFrom_cons nested column (readRepetition_suffix read),
      later fun other shorter => reads other (by rw [List.length_cons]; omega),
      ← List.append_assoc, readCount_eq_spelledCount]
    refine take_append_congr (take_addRepetition (reads inner ?_) _ built) rfl
    rw [List.length_cons]
    omega
  | case4 c rest different later =>
    have suffix : (if takesArgument c then (skipBraced rest).getD rest else rest) <:+ rest := by
      split
      · exact skipBraced_suffix rest
      · exact List.suffix_refl rest
    rw [columnsFrom_cons nested (readColumn_of_ne nested built different rest) suffix,
      ← List.append_assoc]
    refine later (fun inner shorter => reads inner ?_) _
    exact shorter.trans (Nat.lt_succ_of_le suffix.length_le)

/-- A depth of nesting that the length of a specification bounds is never reached. -/
theorem columnsAt_eq {depth : Nat} {text : Text} (short : text.length ≤ depth) :
    columnsAt depth text = (spelledColumns text).take maxSpan := by
  induction depth generalizing text with
  | zero =>
    rw [List.eq_nil_of_length_eq_zero (Nat.le_zero.mp short), spelledColumns, columnsAt]
    rfl
  | succ depth inductionHypothesis =>
    rw [columnsAt]
    exact take_columnsFrom (fun inner shorter => inductionHypothesis (by omega)) []

/-- The columns of a table are the first 256 of the columns that its specification spells
out, so there are never more. -/
theorem columns_eq_take_spelledColumns (specification : Text) :
    columns specification = (spelledColumns specification).take 256 ∧
      (columns specification).length ≤ 256 := by
  have first : columns specification = (spelledColumns specification).take 256 :=
    columnsAt_eq (Nat.le_refl _)
  refine ⟨first, ?_⟩
  rw [first]
  exact List.length_take_le _ _

end LatexMarkdown.Table
