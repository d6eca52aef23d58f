import LatexMarkdown.Math.Clean
import LatexMarkdown.Proofs.CodeOutput
import LatexMarkdown.Proofs.Unescaped
import LatexMarkdown.Table.Row

/-!
# Rows with a relation between two separators

In the rows of some formulas a relation stands between two column separators, and the
second of them is dropped. Rows are cut at every row break and separators are counted
outside braces, but nested environments are not looked at: a matrix in a row has row
breaks and separators of its own. What is dropped is the second separator of a row exactly
if no nested environment brings one of these in its way.
-/

namespace LatexMarkdown

/-! ## Texts that escape nothing -/

/-- A text that escapes nothing behind it: characters, and escaped ones with their
backslashes. -/
inductive Scan.EscapesNothing : Text → Prop
  | nil : EscapesNothing []
  | plain {c : Char} {rest : Text} (different : c ≠ '\\') (later : EscapesNothing rest) :
      EscapesNothing (c :: rest)
  | escaped (c : Char) {rest : Text} (later : EscapesNothing rest) :
      EscapesNothing ('\\' :: c :: rest)

namespace Scan

theorem escapesNothing_of_free :
    {text : Text} → escapesAfter false text = false → EscapesNothing text
  | [], _ => .nil
  | c :: rest, free => by
    by_cases backslash : c = '\\'
    · subst backslash
      cases rest with
      | nil => exact absurd free (by decide)
      | cons d others =>
        have behind : escapesNext true d = false := by
          rw [escapesNext, Bool.not_true, Bool.and_false]
        have later : escapesAfter (escapesNext true d) others = false := free
        exact .escaped d (escapesNothing_of_free (behind ▸ later))
    · rw [escapesAfter_cons, escapesNext_of_ne backslash] at free
      exact .plain backslash (escapesNothing_of_free free)

theorem EscapesNothing.free {text : Text} (escapesNothing : EscapesNothing text) :
    escapesAfter false text = false := by
  induction escapesNothing with
  | nil => rfl
  | @plain c rest different later inductionHypothesis =>
    rw [escapesAfter_cons, escapesNext_of_ne different, inductionHypothesis]
  | @escaped c rest later inductionHypothesis =>
    have behind : escapesNext true c = false := by rw [escapesNext, Bool.not_true, Bool.and_false]
    have first : escapesNext false '\\' = true := rfl
    rw [escapesAfter_cons, escapesAfter_cons, first, behind, inductionHypothesis]

theorem EscapesNothing.append {first second : Text} (before : EscapesNothing first)
    (behind : EscapesNothing second) : EscapesNothing (first ++ second) := by
  apply escapesNothing_of_free
  rw [escapesAfter_append, before.free, behind.free]

end Scan

namespace Math

open Scan

/-! ## Lines between row breaks -/

/-- The pieces of a text between row breaks, wherever these stand. -/
def rowLines (body : Text) : List Text :=
  Text.splitWhere (Text.dropFront? rowBreak) body

theorem rowLines_break (rest : Text) : rowLines ('\\' :: '\\' :: rest) = [] :: rowLines rest := by
  have found : Text.dropFront? rowBreak ('\\' :: '\\' :: rest) = some rest := rfl
  have covered : ('\\' :: rest).length - rest.length = 1 := by
    rw [List.length_cons, Nat.add_sub_cancel_left]
  rw [rowLines, Text.splitWhere, Text.splitWhereFrom, found]
  simp only [covered, Text.splitWhereFrom]
  rfl

theorem rowLines_cons {c : Char} (different : c ≠ '\\') (rest : Text) :
    rowLines (c :: rest) = Text.keepInFirst c (rowLines rest) := by
  have unbroken : Text.dropFront? rowBreak (c :: rest) = none := if_neg (Ne.symm different)
  rw [rowLines, Text.splitWhere, Text.splitWhereFrom, unbroken]
  rfl

theorem rowLines_escaped {c : Char} (different : c ≠ '\\') (rest : Text) :
    rowLines ('\\' :: c :: rest) =
      Text.keepInFirst '\\' (Text.keepInFirst c (rowLines rest)) := by
  have unbroken : Text.dropFront? rowBreak ('\\' :: c :: rest) = none := if_neg (Ne.symm different)
  rw [← rowLines_cons different, rowLines, Text.splitWhere, Text.splitWhereFrom, unbroken]
  rfl

/-- Two runs of lines, of which the last and the first are one line. -/
def joinEnds (first second : List Text) : List Text :=
  first.dropLast ++ (first.getLastD [] ++ second.headD []) :: second.tail

theorem joinEnds_cons {line : Text} {others second : List Text} (nonempty : others ≠ []) :
    joinEnds (line :: others) second = line :: joinEnds others second := by
  obtain ⟨next, later, rfl⟩ := List.exists_cons_of_ne_nil nonempty
  rfl

theorem joinEnds_keepInFirst (c : Char) {first second : List Text} (nonempty : first ≠ []) :
    joinEnds (Text.keepInFirst c first) second = Text.keepInFirst c (joinEnds first second) := by
  obtain ⟨line, others, rfl⟩ := List.exists_cons_of_ne_nil nonempty
  cases others with
  | nil => rfl
  | cons next later => rfl

/-- There is always a line. -/
theorem rowLines_ne_nil (text : Text) : rowLines text ≠ [] := by
  cases text with
  | nil => exact List.cons_ne_nil _ _
  | cons c rest =>
    rw [rowLines, Text.splitWhere, Text.splitWhereFrom]
    split
    · exact List.cons_ne_nil _ _
    · rw [Text.keepInFirst_eq]
      exact List.cons_ne_nil _ _

/-- A text that escapes nothing ends within a line of its own, and what follows goes on
there. -/
theorem rowLines_append {front : Text} (free : EscapesNothing front)
    (behind : Text) : rowLines (front ++ behind) = joinEnds (rowLines front) (rowLines behind) := by
  induction free with
  | nil =>
    obtain ⟨line, others, lines⟩ := List.exists_cons_of_ne_nil (rowLines_ne_nil behind)
    rw [List.nil_append, lines]
    rfl
  | @plain c rest different later inductionHypothesis =>
    rw [List.cons_append, rowLines_cons different, rowLines_cons different, inductionHypothesis,
      joinEnds_keepInFirst c (rowLines_ne_nil rest)]
  | @escaped c rest later inductionHypothesis =>
    rw [List.cons_append, List.cons_append]
    by_cases backslash : c = '\\'
    · subst backslash
      rw [rowLines_break, rowLines_break, inductionHypothesis, joinEnds_cons (rowLines_ne_nil rest)]
    · have kept : Text.keepInFirst c (rowLines rest) ≠ [] := by
        rw [Text.keepInFirst_eq]
        exact List.cons_ne_nil _ _
      rw [rowLines_escaped backslash, rowLines_escaped backslash, inductionHypothesis,
        joinEnds_keepInFirst _ kept, joinEnds_keepInFirst _ (rowLines_ne_nil rest)]

/-- The lines, with row breaks between them, are the text. -/
theorem joinWith_rowLines {text : Text} (free : EscapesNothing text) :
    Text.joinWith rowBreak (rowLines text) = text := by
  induction free with
  | nil => rfl
  | @plain c rest different later inductionHypothesis =>
    rw [rowLines_cons different, Text.joinWith_keepInFirst, inductionHypothesis]
  | @escaped c rest later inductionHypothesis =>
    by_cases backslash : c = '\\'
    · subst backslash
      rw [rowLines_break, Text.joinWith_cons rowBreak [] (rowLines_ne_nil rest),
        inductionHypothesis]
      rfl
    · rw [rowLines_escaped backslash, Text.joinWith_keepInFirst, Text.joinWith_keepInFirst,
        inductionHypothesis]

/-- The line in which a text ends. -/
def lastLine (text : Text) : Text :=
  (rowLines text).getLastD []

theorem foldr_keepInFirst (piece line : Text) (others : List Text) :
    piece.foldr Text.keepInFirst (line :: others) = (piece ++ line) :: others := by
  induction piece with
  | nil => rfl
  | cons c rest inductionHypothesis =>
    rw [List.foldr_cons, inductionHypothesis]
    rfl

/-- The last line is the end of the text, and nothing before it escapes it. -/
theorem exists_append_lastLine {text : Text} (free : EscapesNothing text) :
    ∃ front, text = front ++ lastLine text ∧ EscapesNothing front := by
  -- What stands in front of a text lies in its first line, which may also be the last.
  have keep {piece rest : Text} (pieceFree : EscapesNothing piece) (restFree : EscapesNothing rest)
      (kept : rowLines (piece ++ rest) = piece.foldr Text.keepInFirst (rowLines rest))
      (later : ∃ front, rest = front ++ lastLine rest ∧ EscapesNothing front) :
      ∃ front, piece ++ rest = front ++ lastLine (piece ++ rest) ∧ EscapesNothing front := by
    have joined := joinWith_rowLines restFree
    obtain ⟨line, others, lines⟩ := List.exists_cons_of_ne_nil (rowLines_ne_nil rest)
    rw [lastLine, lines] at later
    rw [lines] at joined kept
    rw [lastLine, kept, foldr_keepInFirst]
    cases others with
    | nil =>
      obtain rfl : line = rest := joined
      exact ⟨[], rfl, .nil⟩
    | cons next more =>
      obtain ⟨front, split, frontFree⟩ := later
      refine ⟨piece ++ front, ?_, pieceFree.append frontFree⟩
      rw [List.append_assoc]
      exact congrArg (piece ++ ·) split
  induction free with
  | nil => exact ⟨[], rfl, .nil⟩
  | @plain c rest different later inductionHypothesis =>
    exact keep (.plain different .nil) later (rowLines_cons different rest)
      inductionHypothesis
  | @escaped c rest later inductionHypothesis =>
    by_cases backslash : c = '\\'
    · subst backslash
      obtain ⟨front, split, frontFree⟩ := inductionHypothesis
      obtain ⟨line, others, lines⟩ := List.exists_cons_of_ne_nil (rowLines_ne_nil rest)
      rw [lastLine, rowLines_break]
      rw [lastLine] at split
      refine ⟨'\\' :: '\\' :: front, ?_, .escaped '\\' frontFree⟩
      rw [lines] at split ⊢
      exact congrArg ('\\' :: '\\' :: ·) split
    · exact keep (.escaped c .nil) later (rowLines_escaped backslash rest)
        inductionHypothesis

/-! ## Joined lines -/

/-- Lines that differ in column separators alone are the same if they are the same with row
breaks between them. -/
theorem joinWith_rowBreak_inj {first second : List Text}
    (similar : first.map (List.filter (· ≠ '&')) = second.map (List.filter (· ≠ '&'))) :
    Text.joinWith rowBreak first = Text.joinWith rowBreak second ↔ first = second := by
  refine ⟨fun joined => ?_, congrArg _⟩
  -- Behind a line stands a row break, which is no separator.
  have ends {line other rest after : Text}
      (similar : line.filter (· ≠ '&') = other.filter (· ≠ '&'))
      (same : line ++ (rowBreak ++ rest) = other ++ (rowBreak ++ after)) :
      line = other ∧ rest = after := by
    have short {line between rest after : Text}
        (similar : line.filter (· ≠ '&') = (line ++ between).filter (· ≠ '&'))
        (same : rowBreak ++ rest = between ++ (rowBreak ++ after)) : between = [] := by
      cases between with
      | nil => rfl
      | cons c others =>
        obtain rfl : '\\' = c := (List.cons.inj same).1
        rw [List.filter_append, List.self_eq_append_right] at similar
        simp at similar
    rcases List.append_eq_append_iff.mp same with ⟨between, rfl, behind⟩ | ⟨between, rfl, behind⟩
    · obtain rfl := short similar behind
      exact ⟨(List.append_nil line).symm, List.append_cancel_left behind⟩
    · obtain rfl := short similar.symm behind
      exact ⟨List.append_nil other, (List.append_cancel_left behind).symm⟩
  induction first generalizing second with
  | nil => exact (List.map_eq_nil_iff.mp similar.symm).symm
  | cons line lines inductionHypothesis =>
    cases second with
    | nil => exact absurd similar (List.cons_ne_nil _ _)
    | cons other others =>
      obtain ⟨here, later⟩ := List.cons.inj similar
      cases lines with
      | nil =>
        obtain rfl := List.map_eq_nil_iff.mp later.symm
        rw [show line = other from joined]
      | cons next more =>
        cases others with
        | nil => exact absurd later (List.cons_ne_nil _ _)
        | cons otherNext otherMore =>
          rw [Text.joinWith_cons _ _ (List.cons_ne_nil next more),
            Text.joinWith_cons _ _ (List.cons_ne_nil otherNext otherMore)] at joined
          obtain ⟨rfl, rest⟩ := ends here joined
          rw [inductionHypothesis later rest]

/-! ## Open separators -/

/-- The depth in braces behind a character. -/
def depthNext (depth : Nat) (escaped : Bool) (c : Char) : Nat :=
  if escaped then depth else if c = '{' then depth + 1 else if c = '}' then depth - 1 else depth

/-- The depth in braces behind a text. -/
def depthAfter : (depth : Nat) → (escaped : Bool) → Text → Nat
  | depth, _, [] => depth
  | depth, escaped, c :: rest =>
    depthAfter (depthNext depth escaped c) (escapesNext escaped c) rest

/-- Whether a character is a column separator outside braces that is not escaped. -/
def isSeparator (depth : Nat) (escaped : Bool) (c : Char) : Bool :=
  !escaped && depth = 0 && c = '&'

/-- How many column separators stand outside braces and are not escaped. -/
def openSeparators : (depth : Nat) → (escaped : Bool) → Text → Nat
  | _, _, [] => 0
  | depth, escaped, c :: rest =>
    (if isSeparator depth escaped c then 1 else 0) +
      openSeparators (depthNext depth escaped c) (escapesNext escaped c) rest

theorem dropSeparator_cons (kept depth : Nat) (escaped : Bool) (c : Char) (rest : Text) :
    dropSeparator kept depth escaped (c :: rest) =
      if isSeparator depth escaped c then
        match kept with
        | 0 => rest
        | fewer + 1 =>
          c :: dropSeparator fewer (depthNext depth escaped c) (escapesNext escaped c) rest
      else c :: dropSeparator kept (depthNext depth escaped c) (escapesNext escaped c) rest := by
  cases escaped with
  | true => simp [dropSeparator, isSeparator, depthNext, escapesNext]
  | false =>
    by_cases separates : isSeparator depth false c = true
    · simp only [isSeparator, Bool.not_false, Bool.true_and, Bool.and_eq_true,
        decide_eq_true_eq] at separates
      obtain ⟨rfl, rfl⟩ := separates
      cases kept <;> rfl
    · rw [if_neg separates]
      simp only [isSeparator, Bool.not_false, Bool.true_and, Bool.and_comm] at separates
      simp only [dropSeparator, if_neg separates, depthNext, escapesNext]
      by_cases backslash : c = '\\'
      · subst backslash
        rfl
      · simp only [backslash]
        by_cases opening : c = '{'
        · simp [opening]
        · by_cases closing : c = '}' <;> simp [opening, closing]

/-- Dropping a separator leaves everything but separators. -/
theorem filter_dropSeparator (kept depth : Nat) (escaped : Bool) (line : Text) :
    (dropSeparator kept depth escaped line).filter (· ≠ '&') = line.filter (· ≠ '&') := by
  induction line generalizing kept depth escaped with
  | nil => cases escaped <;> rfl
  | cons c rest inductionHypothesis =>
    rw [dropSeparator_cons]
    split
    next separates =>
      obtain rfl : c = '&' := by
        rw [isSeparator, Bool.and_eq_true, decide_eq_true_eq] at separates
        exact separates.2
      cases kept with
      | zero => rfl
      | succ fewer => simp only [List.filter_cons, inductionHypothesis]
    · simp only [List.filter_cons, inductionHypothesis]

section Separators

variable {kept depth : Nat} {escaped : Bool} {line : Text}

theorem depthAfter_append (first second : Text) :
    depthAfter depth escaped (first ++ second) =
      depthAfter (depthAfter depth escaped first) (escapesAfter escaped first) second := by
  induction first generalizing depth escaped with
  | nil => rfl
  | cons c rest inductionHypothesis => exact inductionHypothesis

/-- A line that starts outside braces ends no deeper than one that starts inside. -/
theorem depthAfter_mono {inner : Nat} (deeper : depth ≤ inner) :
    depthAfter depth escaped line ≤ depthAfter inner escaped line := by
  induction line generalizing depth inner escaped with
  | nil => exact deeper
  | cons c rest inductionHypothesis =>
    refine inductionHypothesis ?_
    simp only [depthNext]
    split_ifs <;> omega

theorem openSeparators_append (first second : Text) :
    openSeparators depth escaped (first ++ second) =
      openSeparators depth escaped first +
        openSeparators (depthAfter depth escaped first) (escapesAfter escaped first) second := by
  induction first generalizing depth escaped with
  | nil => exact (Nat.zero_add _).symm
  | cons c rest inductionHypothesis =>
    rw [List.cons_append, openSeparators, openSeparators, inductionHypothesis, Nat.add_assoc]
    rfl

/-- Where the separator to drop stands behind a piece, the piece is kept. -/
theorem dropSeparator_append_of_le (few : openSeparators depth escaped line ≤ kept)
    (behind : Text) :
    dropSeparator kept depth escaped (line ++ behind) =
      line ++ dropSeparator (kept - openSeparators depth escaped line)
        (depthAfter depth escaped line) (escapesAfter escaped line) behind := by
  induction line generalizing kept depth escaped with
  | nil => rfl
  | cons c rest inductionHypothesis =>
    rw [openSeparators] at few ⊢
    rw [List.cons_append, dropSeparator_cons]
    split
    next separates =>
      rw [if_pos separates] at few
      cases kept with
      | zero => omega
      | succ fewer =>
        have others : openSeparators (depthNext depth escaped c) (escapesNext escaped c) rest ≤
            fewer := by omega
        simp only [inductionHypothesis others]
        rw [Nat.add_comm 1, Nat.add_sub_add_right]
        rfl
    next stays =>
      rw [if_neg stays, Nat.zero_add] at few
      rw [inductionHypothesis few, Nat.zero_add]
      rfl

/-- Where the separator to drop stands in a piece, what follows is kept. -/
theorem dropSeparator_append_of_lt (many : kept < openSeparators depth escaped line)
    (behind : Text) :
    dropSeparator kept depth escaped (line ++ behind) =
      dropSeparator kept depth escaped line ++ behind := by
  induction line generalizing kept depth escaped with
  | nil => exact absurd many (Nat.not_lt_zero _)
  | cons c rest inductionHypothesis =>
    rw [openSeparators] at many
    rw [List.cons_append, dropSeparator_cons, dropSeparator_cons]
    split
    next separates =>
      rw [if_pos separates] at many
      cases kept with
      | zero => rfl
      | succ fewer =>
        have others : fewer <
            openSeparators (depthNext depth escaped c) (escapesNext escaped c) rest := by omega
        simp only [inductionHypothesis others, List.cons_append]
    next stays =>
      rw [if_neg stays, Nat.zero_add] at many
      rw [inductionHypothesis many, List.cons_append]

/-- A line is kept as it is exactly if it has no separator to drop. -/
theorem dropSeparator_eq_self_iff :
    dropSeparator kept depth escaped line = line ↔ openSeparators depth escaped line ≤ kept := by
  constructor
  · intro same
    by_contra many
    have shorter : (dropSeparator kept depth escaped line).length < line.length := by
      clear same
      induction line generalizing kept depth escaped with
      | nil => exact absurd (Nat.zero_le _) many
      | cons c rest inductionHypothesis =>
        rw [openSeparators] at many
        rw [dropSeparator_cons]
        split
        next separates =>
          rw [if_pos separates] at many
          cases kept with
          | zero => exact Nat.lt_succ_self _
          | succ fewer =>
            exact Nat.succ_lt_succ (inductionHypothesis (by omega))
        next stays =>
          rw [if_neg stays, Nat.zero_add] at many
          exact Nat.succ_lt_succ (inductionHypothesis many)
    rw [same] at shorter
    exact Nat.lt_irrefl _ shorter
  · intro few
    have kept := dropSeparator_append_of_le few []
    have empty (kept depth : Nat) (escaped : Bool) : dropSeparator kept depth escaped [] = [] := by
      cases escaped <;> rfl
    rwa [empty, List.append_nil] at kept

end Separators

/-- Where a text ends outside braces, its last line does too, as far as that line knows of
them. -/
theorem lastLine_ends {text : Text} (free : EscapesNothing text)
    (closed : depthAfter 0 false text = 0) :
    depthAfter 0 false (lastLine text) = 0 ∧ escapesAfter false (lastLine text) = false := by
  have unescaped := free.free
  obtain ⟨front, split, frontFree⟩ := exists_append_lastLine free
  rw [split, depthAfter_append, frontFree.free] at closed
  rw [split, escapesAfter_append, frontFree.free] at unescaped
  have shallower : depthAfter 0 false (lastLine text) ≤
      depthAfter (depthAfter 0 false front) false (lastLine text) := depthAfter_mono (Nat.zero_le _)
  rw [closed] at shallower
  exact ⟨Nat.le_zero.mp shallower, unescaped⟩

/-- Where a separator at the end of a text is escaped, so is one at the end of its last
line. -/
theorem escapes_of_lastLine {text : Text} (free : EscapesNothing text)
    (escaped : ∀ front, text = front ++ ['&'] → escapesAfter false front = true) :
    ∀ front, lastLine text = front ++ ['&'] → escapesAfter false front = true := by
  intro front ends
  obtain ⟨before, split, beforeFree⟩ := exists_append_lastLine free
  rw [ends, ← List.append_assoc] at split
  have whole := escaped _ split
  rwa [escapesAfter_append, beforeFree.free] at whole

/-! ## Collapsing row by row -/

theorem filter_joinWith (lines : List Text) :
    (Text.joinWith rowBreak lines).filter (· ≠ '&') =
      Text.joinWith rowBreak (lines.map (List.filter (· ≠ '&'))) := by
  induction lines with
  | nil => rfl
  | cons line others inductionHypothesis =>
    cases others with
    | nil => rfl
    | cons next more =>
      rw [List.map_cons, Text.joinWith_cons _ _ (List.cons_ne_nil next more), List.filter_append,
        List.filter_append, inductionHypothesis,
        Text.joinWith_cons _ _ (mt List.map_eq_nil_iff.mp (List.cons_ne_nil next more))]
      rfl

/-- Collapsing columns leaves everything but separators. -/
theorem filter_collapseColumns {body : Text} (free : EscapesNothing body) :
    (collapseColumns body).filter (· ≠ '&') = body.filter (· ≠ '&') := by
  have similar : List.filter (· ≠ '&') ∘ dropSeparator 1 0 false = List.filter (· ≠ '&') :=
    funext (filter_dropSeparator 1 0 false)
  rw [collapseColumns, filter_joinWith, ← rowLines, List.map_map, similar, ← filter_joinWith,
    joinWith_rowLines free]

/-- Rows are collapsed one by one. -/
theorem collapseColumns_joinWith {rows : List Text} (free : ∀ row ∈ rows, EscapesNothing row) :
    collapseColumns (Text.joinWith rowBreak rows) =
      Text.joinWith rowBreak (rows.map collapseColumns) := by
  induction rows with
  | nil => rfl
  | cons row others inductionHypothesis =>
    rw [List.forall_mem_cons] at free
    by_cases last : others = []
    · subst last
      rfl
    · have cut (rest : Text) :
          rowLines (row ++ (rowBreak ++ rest)) = rowLines row ++ rowLines rest := by
        have behind : rowLines (rowBreak ++ rest) = [] :: rowLines rest := rowLines_break rest
        have whole := List.dropLast_append_getLast (rowLines_ne_nil row)
        rw [rowLines_append free.1, behind, joinEnds, List.getLastD_eq_getLast?,
          List.getLast?_eq_some_getLast (rowLines_ne_nil row)]
        rw [List.headD_cons, List.append_nil, List.tail_cons, List.append_cons, Option.getD_some,
          whole]
      have filled (text : Text) : (rowLines text).map (dropSeparator 1 0 false) ≠ [] :=
        mt List.map_eq_nil_iff.mp (rowLines_ne_nil text)
      rw [List.map_cons, Text.joinWith_cons _ _ last,
        Text.joinWith_cons _ _ (mt List.map_eq_nil_iff.mp last), ← inductionHypothesis free.2,
        collapseColumns, ← rowLines, cut, List.map_append,
        Text.joinWith_append _ (filled _) (filled _)]
      rfl

/-! ## Balanced parts -/

/-- What starts at a position fits the depth there: separators and row breaks stand inside
braces or environments, and what is closed is open. -/
def Fits (depth : Table.Depth) (text : Text) : Prop :=
  (['&'] <+: text ∨ rowBreak <+: text → depth ≠ .top) ∧
    (['}'] <+: text → depth.braces ≠ 0) ∧
    ("\\end".toList ++ ['{'] <+: text → depth.environments ≠ 0)

instance (depth : Table.Depth) (text : Text) : Decidable (Fits depth text) :=
  inferInstanceAs (Decidable (_ ∧ _ ∧ _))

/-- From a depth on, a text closes all braces and environments that are open, everything in
it fits, and nothing behind it is escaped. -/
def IsBalanced : Table.Depth → (escaped : Bool) → Text → Prop
  | depth, escaped, [] => depth = .top ∧ escaped = false
  | depth, true, _ :: rest => IsBalanced depth false rest
  | depth, false, c :: rest =>
    Fits depth (c :: rest) ∧
      if c = '\\' then IsBalanced (depth.afterCommand (c :: rest)) true rest
      else IsBalanced (depth.afterBrace c) false rest

instance decidableIsBalanced :
    (depth : Table.Depth) → (escaped : Bool) → (text : Text) →
      Decidable (IsBalanced depth escaped text)
  | _, _, [] => inferInstanceAs (Decidable (_ ∧ _))
  | depth, true, _ :: rest => decidableIsBalanced depth false rest
  | depth, false, c :: rest =>
    have := decidableIsBalanced (depth.afterCommand (c :: rest)) true rest
    have := decidableIsBalanced (depth.afterBrace c) false rest
    inferInstanceAs (Decidable (Fits depth (c :: rest) ∧
      if c = '\\' then IsBalanced (depth.afterCommand (c :: rest)) true rest
      else IsBalanced (depth.afterBrace c) false rest))

namespace IsBalanced

variable {depth : Table.Depth} {escaped : Bool} {text : Text}

theorem ends (balanced : IsBalanced depth escaped text) :
    depthAfter depth.braces escaped text = 0 ∧ escapesAfter escaped text = false := by
  induction text generalizing depth escaped with
  | nil =>
    obtain ⟨rfl, free⟩ := balanced
    exact ⟨rfl, free⟩
  | cons c rest inductionHypothesis =>
    rw [depthAfter, escapesAfter_cons]
    cases escaped with
    | true =>
      rw [depthNext, if_pos rfl, escapesNext, Bool.not_true, Bool.and_false]
      exact inductionHypothesis balanced
    | false =>
      obtain ⟨-, later⟩ := balanced
      by_cases backslash : c = '\\'
      · subst backslash
        rw [if_pos rfl] at later
        have braces : (depth.afterCommand ('\\' :: rest)).braces = depth.braces := by
          rw [Table.Depth.afterCommand]
          split_ifs <;> rfl
        have behind := inductionHypothesis later
        rwa [braces] at behind
      · rw [if_neg backslash] at later
        have braces : (depth.afterBrace c).braces = depthNext depth.braces false c := by
          rw [Table.Depth.afterBrace, depthNext]
          split_ifs <;> first | rfl | simp_all
        rw [escapesNext_of_ne backslash, ← braces]
        exact inductionHypothesis later

/-- The rest of a balanced text is balanced from some depth on. -/
theorem behind {front : Text} (balanced : IsBalanced depth escaped (front ++ text)) :
    ∃ inner, IsBalanced inner (escapesAfter escaped front) text := by
  induction front generalizing depth escaped with
  | nil => exact ⟨depth, balanced⟩
  | cons c rest inductionHypothesis =>
    rw [escapesAfter_cons]
    cases escaped with
    | true =>
      rw [escapesNext, Bool.not_true, Bool.and_false]
      exact inductionHypothesis balanced
    | false =>
      obtain ⟨-, later⟩ := balanced
      by_cases backslash : c = '\\'
      · subst backslash
        rw [if_pos rfl] at later
        exact inductionHypothesis later
      · rw [if_neg backslash] at later
        rw [escapesNext_of_ne backslash]
        exact inductionHypothesis later

/-- A separator at the end of a balanced text is escaped. -/
theorem escapes_of_concat {front : Text} (balanced : IsBalanced depth false (front ++ ['&'])) :
    escapesAfter false front = true := by
  by_contra free
  rw [Bool.not_eq_true] at free
  obtain ⟨inner, last⟩ := balanced.behind
  rw [free] at last
  obtain ⟨fits, closed⟩ := last
  rw [if_neg (by decide)] at closed
  exact fits.1 (.inl (List.prefix_refl _)) closed.1

/-- A balanced text does not start with a separator. -/
theorem head?_ne (balanced : IsBalanced .top false text) : text.head? ≠ some '&' := by
  intro starts
  obtain ⟨rest, rfl⟩ := List.head?_eq_some_iff.mp starts
  exact balanced.1.1 (.inl ⟨rest, rfl⟩) rfl

end IsBalanced

/-! ## Rows -/

/-- A row of two sides with a relation between them, each of them balanced. -/
structure RelationRow where
  left : Text
  relation : Text
  right : Text
  leftBalanced : IsBalanced .top false left
  relationBalanced : IsBalanced .top false relation
  rightBalanced : IsBalanced .top false right

namespace RelationRow

/-- The row up to its second separator. -/
def front (row : RelationRow) : Text :=
  row.left ++ '&' :: row.relation

/-- The row with both of its separators. -/
def text (row : RelationRow) : Text :=
  row.front ++ '&' :: row.right

/-- The row without its second separator. -/
def collapsed (row : RelationRow) : Text :=
  row.front ++ row.right

/-- What stands before the second separator in its line. -/
def own (row : RelationRow) : Text :=
  lastLine row.front

/-- The lines of the row that its second separator does not stand in. -/
def others (row : RelationRow) : List Text :=
  (rowLines row.front).dropLast ++ (rowLines row.right).tail

/-- The second separator of the row is the second one of its line, or the third one next to
the second, and no other line of the row has two. -/
structure IsPlain (row : RelationRow) : Prop where
  others : ∀ line ∈ row.others, openSeparators 0 false line ≤ 1
  own : openSeparators 0 false row.own = 1 ∨
    row.relation = [] ∧ openSeparators 0 false row.own = 2

variable (row : RelationRow)

theorem escapesNothing_front : EscapesNothing row.front := by
  apply escapesNothing_of_free
  rw [front, escapesAfter_append, row.leftBalanced.ends.2, escapesAfter_cons,
    escapesNext_of_ne (by decide), row.relationBalanced.ends.2]

theorem escapesNothing_text : EscapesNothing row.text := by
  have behind : EscapesNothing ('&' :: row.right) :=
    .plain (by decide) (escapesNothing_of_free row.rightBalanced.ends.2)
  exact row.escapesNothing_front.append behind

theorem escapesNothing_collapsed : EscapesNothing row.collapsed :=
  row.escapesNothing_front.append (escapesNothing_of_free row.rightBalanced.ends.2)

theorem rowLines_text : rowLines row.text = (rowLines row.front).dropLast ++
    (row.own ++ '&' :: (rowLines row.right).headD []) :: (rowLines row.right).tail := by
  rw [text, rowLines_append row.escapesNothing_front, rowLines_cons (by decide),
    Text.keepInFirst_eq]
  rfl

theorem rowLines_collapsed : rowLines row.collapsed = (rowLines row.front).dropLast ++
    (row.own ++ (rowLines row.right).headD []) :: (rowLines row.right).tail :=
  rowLines_append row.escapesNothing_front _

/-- At the second separator all braces are closed, as far as its line knows of them, and
nothing is escaped. -/
theorem own_ends : depthAfter 0 false row.own = 0 ∧ escapesAfter false row.own = false := by
  refine lastLine_ends row.escapesNothing_front ?_
  have left : depthAfter 0 false row.left = 0 := row.leftBalanced.ends.1
  rw [front, depthAfter_append, left, row.leftBalanced.ends.2]
  exact row.relationBalanced.ends.1

/-- The right side does not start with a separator. -/
theorem right_starts {rest : Text} : (rowLines row.right).headD [] ≠ '&' :: rest := by
  intro starts
  obtain ⟨line, others, lines⟩ := List.exists_cons_of_ne_nil (rowLines_ne_nil row.right)
  have joined := joinWith_rowLines (escapesNothing_of_free row.rightBalanced.ends.2)
  rw [lines] at starts joined
  obtain rfl : line = '&' :: rest := starts
  refine row.rightBalanced.head?_ne ?_
  rw [← joined]
  cases others <;> rfl

end RelationRow

/-- A line that ends in no open separator does not come from dropping one before its end. -/
theorem dropSeparator_concat_ne {line : Text}
    (escaped : ∀ front, line = front ++ ['&'] → escapesAfter false front = true) :
    dropSeparator 1 0 false line ++ ['&'] ≠ line := by
  intro same
  generalize kept : dropSeparator 1 0 false line = front at same
  have isEscaped := escaped front same.symm
  subst same
  by_cases few : openSeparators 0 false front ≤ 1
  · rw [dropSeparator_append_of_le few, isEscaped] at kept
    exact List.cons_ne_nil _ _ (List.append_right_eq_self.mp kept)
  · rw [dropSeparator_append_of_lt (Nat.not_le.mp few)] at kept
    rw [← kept, escapesAfter_concat (by decide)] at isEscaped
    exact Bool.false_ne_true isEscaped

/-! ## Where the second separator is dropped -/

namespace RelationRow

variable (row : RelationRow)

/-- The line of the second separator loses just this separator exactly if it is the second
one there, or the third one next to the second. -/
theorem dropSeparator_own_iff :
    dropSeparator 1 0 false (row.own ++ '&' :: (rowLines row.right).headD []) =
        row.own ++ (rowLines row.right).headD [] ↔
      openSeparators 0 false row.own = 1 ∨
        row.relation = [] ∧ openSeparators 0 false row.own = 2 := by
  obtain ⟨closed, unescaped⟩ := row.own_ends
  by_cases few : openSeparators 0 false row.own ≤ 1
  · have separates : isSeparator 0 false '&' = true := rfl
    rw [dropSeparator_append_of_le few, closed, unescaped, List.append_cancel_left_eq,
      dropSeparator_cons, if_pos separates]
    obtain none | single : openSeparators 0 false row.own = 0 ∨
        openSeparators 0 false row.own = 1 := by omega
    · rw [none]
      refine iff_of_false (fun same => row.right_starts same.symm) ?_
      omega
    · rw [single]
      exact iff_of_true rfl (.inl rfl)
  · have many : 1 < openSeparators 0 false row.own := Nat.not_le.mp few
    have single : openSeparators 0 false row.own ≠ 1 := ne_of_gt many
    rw [dropSeparator_append_of_lt many, List.append_cons, List.append_cancel_right_eq,
      or_iff_right single]
    by_cases bare : row.relation = []
    · -- The first separator ends the line, and the second one stands next to it.
      have leftFree := escapesNothing_of_free row.leftBalanced.ends.2
      have ends := lastLine_ends leftFree row.leftBalanced.ends.1
      have own : row.own = lastLine row.left ++ ['&'] := by
        have alone : rowLines ['&'] = [['&']] := rfl
        rw [RelationRow.own, front, bare, lastLine, rowLines_append leftFree, alone, joinEnds]
        simp [lastLine]
      have count :
          openSeparators 0 false row.own = openSeparators 0 false (lastLine row.left) + 1 := by
        rw [own, openSeparators_append, ends.1, ends.2]
        rfl
      rw [count] at many ⊢
      rw [own, List.append_cancel_right_eq]
      by_cases one : openSeparators 0 false (lastLine row.left) = 1
      · refine iff_of_true ?_ ⟨bare, by rw [one]⟩
        rw [dropSeparator_append_of_le one.le, one, ends.1, ends.2]
        exact List.append_nil _
      · rw [dropSeparator_append_of_lt (by omega)]
        refine iff_of_false (dropSeparator_concat_ne ?_) (fun both => one (by omega))
        refine escapes_of_lastLine leftFree fun before split => ?_
        exact IsBalanced.escapes_of_concat (split ▸ row.leftBalanced)
    · refine iff_of_false (dropSeparator_concat_ne ?_) (fun both => bare both.1)
      refine escapes_of_lastLine row.escapesNothing_front fun before split => ?_
      obtain ⟨inner, last, relation⟩ := (List.eq_nil_or_concat row.relation).resolve_left bare
      have whole := row.relationBalanced
      rw [List.concat_eq_append] at relation
      rw [front, relation, ← List.cons_append, ← List.append_assoc] at split
      obtain ⟨rfl, same⟩ := List.append_inj' split rfl
      rw [relation, same] at whole
      rw [escapesAfter_append, row.leftBalanced.ends.2, escapesAfter_cons,
        escapesNext_of_ne (by decide)]
      exact whole.escapes_of_concat

/-- Collapsing the columns of a single row drops its second separator exactly if the row is
plain. -/
theorem collapseColumns_eq_iff : collapseColumns row.text = row.collapsed ↔ row.IsPlain := by
  have others (lines : List Text) : lines.map (dropSeparator 1 0 false) = lines ↔
      ∀ line ∈ lines, openSeparators 0 false line ≤ 1 := by
    induction lines with
    | nil => simp
    | cons line more inductionHypothesis =>
      rw [List.map_cons, List.cons.injEq, inductionHypothesis, dropSeparator_eq_self_iff,
        List.forall_mem_cons]
  have joined := joinWith_rowLines row.escapesNothing_collapsed
  rw [collapseColumns, ← rowLines, ← joined, joinWith_rowBreak_inj]
  · rw [row.rowLines_text, row.rowLines_collapsed, List.map_append, List.map_cons]
    constructor
    · intro same
      obtain ⟨before, ends⟩ := List.append_inj same (List.length_map _)
      obtain ⟨here, behind⟩ := List.cons.inj ends
      refine ⟨List.forall_mem_append.mpr ⟨(others _).mp before, (others _).mp behind⟩, ?_⟩
      exact row.dropSeparator_own_iff.mp here
    · rintro ⟨plain, own⟩
      rw [RelationRow.others, List.forall_mem_append] at plain
      rw [(others _).mpr plain.1, (others _).mpr plain.2, row.dropSeparator_own_iff.mpr own]
  · have similar : List.filter (· ≠ '&') ∘ dropSeparator 1 0 false = List.filter (· ≠ '&') :=
      funext (filter_dropSeparator 1 0 false)
    rw [List.map_map, similar, row.rowLines_text, row.rowLines_collapsed]
    simp only [List.map_append, List.map_cons, List.filter_append]
    rfl

/-- A row is plain if no part of it has a row break and all other separators stand in
braces. -/
theorem isPlain_of_braced
    (single : ∀ part ∈ [row.left, row.relation, row.right], rowLines part = [part])
    (braced : ∀ part ∈ [row.left, row.relation, row.right], openSeparators 0 false part = 0) :
    row.IsPlain := by
  simp only [List.forall_mem_cons] at single braced
  obtain ⟨left, relation, right, -⟩ := single
  obtain ⟨leftBraced, relationBraced, -⟩ := braced
  have whole : rowLines row.front = [row.front] := by
    rw [front, rowLines_append (escapesNothing_of_free row.leftBalanced.ends.2),
      rowLines_cons (by decide), left, relation]
    rfl
  constructor
  · rw [others, whole, right]
    exact List.forall_mem_nil _
  · left
    have closed : depthAfter 0 false row.left = 0 := row.leftBalanced.ends.1
    have count : openSeparators 0 false ('&' :: row.relation) =
        1 + openSeparators 0 false row.relation := rfl
    rw [own, lastLine, whole, List.getLastD_cons, List.getLastD_nil, front, openSeparators_append,
      closed, row.leftBalanced.ends.2, leftBraced, count, relationBraced]

end RelationRow

/-- Rows lose their second separators, and nothing else changes, exactly if all of them are
plain. -/
theorem collapseColumns_rows_iff (rows : List RelationRow) :
    collapseColumns (Text.joinWith rowBreak (rows.map RelationRow.text)) =
        Text.joinWith rowBreak (rows.map RelationRow.collapsed) ↔
      ∀ row ∈ rows, row.IsPlain := by
  have free : ∀ text ∈ rows.map RelationRow.text, EscapesNothing text :=
    List.forall_mem_map.mpr fun row _ => row.escapesNothing_text
  have similar (row : RelationRow) :
      (collapseColumns row.text).filter (· ≠ '&') = row.collapsed.filter (· ≠ '&') := by
    rw [filter_collapseColumns row.escapesNothing_text, RelationRow.text, RelationRow.collapsed,
      List.filter_append, List.filter_append]
    rfl
  rw [collapseColumns_joinWith free, List.map_map, joinWith_rowBreak_inj]
  · rw [List.map_inj_left]
    exact forall₂_congr fun row _ => row.collapseColumns_eq_iff
  · rw [List.map_map, List.map_map]
    exact List.map_congr_left fun row _ => similar row

/-- A row with separators in braces. -/
def bracedRow : RelationRow where
  left := "x_{i&j}".toList
  relation := "\\mathrel{&}".toList
  right := "a\\&b".toList
  leftBalanced := by decide
  relationBalanced := by decide
  rightBalanced := by decide

/-- A row with a matrix on its right. -/
def resultRow : RelationRow where
  left := ['M']
  relation := ['=']
  right := "\\begin{pmatrix}a&b\\\\c&d\\end{pmatrix}".toList
  leftBalanced := by decide
  relationBalanced := by decide
  rightBalanced := by decide

/-- Separators in braces and a matrix behind the second separator stay as they are. -/
theorem collapseColumns_plainRows :
    collapseColumns (Text.joinWith rowBreak ([bracedRow, resultRow].map RelationRow.text)) =
      "x_{i&j}&\\mathrel{&}a\\&b\\\\".toList ++
        "M&=\\begin{pmatrix}a&b\\\\c&d\\end{pmatrix}".toList := by
  have braced : bracedRow.IsPlain := bracedRow.isPlain_of_braced (by decide) (by decide)
  have result : resultRow.IsPlain := ⟨by decide, by decide⟩
  have plain : ∀ row ∈ [bracedRow, resultRow], row.IsPlain :=
    List.forall_mem_cons.mpr ⟨braced, List.forall_mem_singleton.mpr result⟩
  rw [(collapseColumns_rows_iff [bracedRow, resultRow]).mpr plain]
  decide

/-- A row with a matrix on its left. -/
def matrixRow : RelationRow where
  left := "\\begin{pmatrix}a&b\\\\c&d\\end{pmatrix}".toList
  relation := ['=']
  right := ['M']
  leftBalanced := by decide
  relationBalanced := by decide
  rightBalanced := by decide

/-- The line behind the row break of the matrix has a separator of its own, and the first
separator of the row is dropped in place of the second. -/
theorem collapseColumns_matrixRow :
    collapseColumns (Text.joinWith rowBreak ([matrixRow].map RelationRow.text)) =
        "\\begin{pmatrix}a&b\\\\c&d\\end{pmatrix}=&M".toList ∧
      collapseColumns (Text.joinWith rowBreak ([matrixRow].map RelationRow.text)) ≠
        Text.joinWith rowBreak ([matrixRow].map RelationRow.collapsed) := by
  decide

end Math

end LatexMarkdown
