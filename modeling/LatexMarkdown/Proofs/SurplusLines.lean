import LatexMarkdown.Proofs.CodeOutput

/-!
# The lines of a finished document

The last pass drops lines and changes none. A line is loose if it is blank and stands
outside code fences; a fence opens behind an even number of fences and closes behind an
odd one. What goes away are the loose lines directly behind a loose line. This leaves the
fences where they were, so that a second run finds the same loose lines and none of them
behind another.
-/

namespace LatexMarkdown.Text

/-! ## Blank lines and fences -/

/-- All characters of a text are blanks. -/
def AllBlank (text : Text) : Prop :=
  ∀ c ∈ text, isBlank c = true

theorem isBlankText_iff {text : Text} : isBlankText text = true ↔ AllBlank text :=
  List.all_eq_true

instance : DecidablePred AllBlank := fun _ =>
  decidable_of_iff _ isBlankText_iff

@[simp] theorem decide_allBlank (text : Text) : decide (AllBlank text) = isBlankText text := by
  rw [Bool.eq_iff_iff, decide_eq_true_iff, isBlankText_iff]

/-- Behind its first blanks a line shows three backticks. -/
def IsFence (line : Text) : Prop :=
  ∃ gap rest, AllBlank gap ∧ line = gap ++ ("```".toList ++ rest)

theorem isFence_iff {line : Text} : isFence line = true ↔ IsFence line := by
  rw [isFence, startsWith_iff, trimStart]
  constructor
  · rintro ⟨rest, shown⟩
    refine ⟨line.takeWhile isBlank, rest, fun _ => List.mem_takeWhile_imp, ?_⟩
    rw [shown, List.takeWhile_append_dropWhile]
  · rintro ⟨gap, rest, blank, rfl⟩
    have visible : ("```".toList ++ rest).dropWhile isBlank = "```".toList ++ rest :=
      List.dropWhile_cons_of_neg (by decide)
    rw [List.dropWhile_append_of_pos blank, visible]
    exact List.prefix_append _ rest

instance : DecidablePred IsFence := fun _ =>
  decidable_of_iff _ isFence_iff

@[simp] theorem decide_isFence (line : Text) : decide (IsFence line) = isFence line := by
  rw [Bool.eq_iff_iff, decide_eq_true_iff, isFence_iff]

/-! ## Loose and surplus lines -/

/-- The lines at the selected indices, in their order. -/
def linesAt (selected : Nat → Bool) (lines : List Text) : List Text :=
  (lines.zipIdx.filter fun (_, index) => selected index).map Prod.fst

/-- Whether a line stands inside a code fence: the number of fences before it is odd. -/
def isInside (lines : List Text) (index : Nat) : Bool :=
  decide ((lines.take index).countP (fun line => decide (IsFence line)) % 2 = 1)

/-- Whether a line is blank and outside code fences, in lines that start inside one or
not. -/
def isLoose (fenced : Bool) (lines : List Text) (index : Nat) : Bool :=
  lines[index]?.any (fun line => decide (AllBlank line)) && !(fenced ^^ isInside lines index)

/-- Whether a line is loose and so is the line before it; of the line before the first one
this is given. -/
def isSurplus (fenced afterBlank : Bool) (lines : List Text) : Nat → Bool
  | 0 => afterBlank && isLoose fenced lines 0
  | index + 1 => isLoose fenced lines index && isLoose fenced lines (index + 1)

@[simp] theorem linesAt_nil (selected : Nat → Bool) : linesAt selected [] = [] :=
  rfl

theorem linesAt_cons (selected : Nat → Bool) (line : Text) (others : List Text) :
    linesAt selected (line :: others) =
      (if selected 0 then [line] else []) ++
        linesAt (fun index => selected (index + 1)) others := by
  have shifted : (others.zipIdx 1).filter (fun (_, index) => selected index) =
      (others.zipIdx.filter fun (_, index) => selected (index + 1)).map
        fun (line, index) => (line, index + 1) := by
    rw [List.zipIdx_succ, List.filter_map]
    rfl
  rw [linesAt, linesAt, List.zipIdx_cons, List.filter_cons, shifted]
  cases first : selected 0 <;> simp [first]

/-- A fence turns inside and outside round for all lines behind it. -/
theorem isInside_cons (line : Text) (others : List Text) (index : Nat) :
    isInside (line :: others) (index + 1) = (isFence line ^^ isInside others index) := by
  rw [isInside, isInside, List.take_succ_cons, List.countP_cons, decide_isFence]
  cases isFence line with
  | false => simp
  | true =>
    rcases Nat.mod_two_eq_zero_or_one ((others.take index).countP isFence) with even | odd
    · simp [Nat.add_mod, even]
    · simp [Nat.add_mod, odd]

/-- A blank line is no fence. -/
theorem isFence_of_isBlankText {line : Text} (blank : isBlankText line = true) :
    isFence line = false := by
  by_contra fence
  rw [Bool.not_eq_false] at fence
  rw [isBlankText_of_isFence fence] at blank
  exact Bool.false_ne_true blank

section Step

variable (fenced afterBlank : Bool) (line : Text) (others : List Text)

theorem isLoose_zero : isLoose fenced (line :: others) 0 = (isBlankText line && !fenced) := by
  simp [isLoose, isInside]

theorem isLoose_succ (index : Nat) :
    isLoose fenced (line :: others) (index + 1) =
      isLoose (fenced ^^ isFence line) others index := by
  rw [isLoose, isLoose, isInside_cons, Bool.xor_assoc]
  rfl

/-- Behind the first line its own looseness is given. -/
theorem isSurplus_succ (index : Nat) :
    isSurplus fenced afterBlank (line :: others) (index + 1) =
      isSurplus (fenced ^^ isFence line) (isBlankText line && !fenced) others index := by
  cases index with
  | zero => rw [isSurplus, isSurplus, isLoose_zero, isLoose_succ]
  | succ index => rw [isSurplus, isSurplus, isLoose_succ, isLoose_succ]

/-- One step over the lines: a first line goes away if it is surplus, and the lines behind
it are told where they stand. -/
theorem dropSurplusBlankLines_cons :
    dropSurplusBlankLines fenced afterBlank (line :: others) =
      (if isSurplus fenced afterBlank (line :: others) 0 then [] else [line]) ++
        dropSurplusBlankLines (fenced ^^ isFence line) (isBlankText line && !fenced) others := by
  rw [isSurplus, isLoose_zero, dropSurplusBlankLines]
  cases fence : isFence line with
  | true => simp [isBlankText_of_isFence fence]
  | false => cases fenced <;> cases afterBlank <;> cases isBlankText line <;> rfl

end Step

/-! ## A run over all lines -/

section Run

variable (fenced afterBlank : Bool) (lines : List Text)

/-- Exactly the surplus lines go away. -/
theorem dropSurplusBlankLines_eq_linesAt :
    dropSurplusBlankLines fenced afterBlank lines =
      linesAt (fun index => !isSurplus fenced afterBlank lines index) lines := by
  induction lines generalizing fenced afterBlank with
  | nil => rfl
  | cons line others inductionHypothesis =>
    rw [dropSurplusBlankLines_cons, linesAt_cons, inductionHypothesis]
    simp only [isSurplus_succ]
    cases isSurplus fenced afterBlank (line :: others) 0 <;> rfl

/-- The lines that are visible or inside a code fence are the same afterwards. -/
theorem linesAt_dropSurplusBlankLines :
    linesAt (fun index => !isLoose fenced (dropSurplusBlankLines fenced afterBlank lines) index)
        (dropSurplusBlankLines fenced afterBlank lines) =
      linesAt (fun index => !isLoose fenced lines index) lines := by
  induction lines generalizing fenced afterBlank with
  | nil => rfl
  | cons line others inductionHypothesis =>
    rw [dropSurplusBlankLines_cons, linesAt_cons _ line others]
    simp only [isLoose_succ fenced line others]
    rw [← inductionHypothesis (fenced ^^ isFence line) (isBlankText line && !fenced)]
    split
    next surplus =>
      -- A surplus line is loose, and no fence.
      rw [isSurplus, isLoose_zero, Bool.and_eq_true, Bool.and_eq_true] at surplus
      obtain ⟨-, blank, outside⟩ := surplus
      simp [isLoose_zero, isFence_of_isBlankText blank, blank, outside]
    next =>
      rw [List.singleton_append, linesAt_cons]
      simp only [isLoose_succ, isLoose_zero]

/-- No line is surplus afterwards. -/
theorem isSurplus_dropSurplusBlankLines (index : Nat) :
    isSurplus fenced afterBlank (dropSurplusBlankLines fenced afterBlank lines) index = false := by
  induction lines generalizing fenced afterBlank index with
  | nil => cases index <;> simp [dropSurplusBlankLines, isSurplus, isLoose]
  | cons line others inductionHypothesis =>
    have later := inductionHypothesis (fenced ^^ isFence line) (isBlankText line && !fenced)
    rw [dropSurplusBlankLines_cons]
    split
    next surplus =>
      rw [isSurplus, isLoose_zero, Bool.and_eq_true, Bool.and_eq_true] at surplus
      obtain ⟨rfl, blank, outside⟩ := surplus
      simpa [isFence_of_isBlankText blank, blank, outside] using later index
    next kept =>
      cases index with
      | zero =>
        rw [isSurplus, isLoose_zero] at kept
        rw [isSurplus, List.singleton_append, isLoose_zero]
        exact Bool.eq_false_iff.mpr kept
      | succ index =>
        rw [List.singleton_append, isSurplus_succ]
        exact later index

end Run

/-- The lines of a finished document. -/
theorem splitOn_finishLayout {text : Text} (visible : isBlankText text = false) :
    splitOn '\n' (finishLayout text) = dropSurplusBlankLines false false (splitOn '\n' text) := by
  have single : ∀ line ∈ dropSurplusBlankLines false false (splitOn '\n' text), '\n' ∉ line :=
    fun line member => not_mem_of_mem_splitOn ((dropSurplusBlankLines_sublist ..).subset member)
  rw [finishLayout, visible, if_neg Bool.false_ne_true,
    splitOn_joinWith (dropSurplusBlankLines_ne_nil false (splitOn_ne_nil '\n' text)) single]

/-- In lines that are all blank, none is visible or inside a code fence. -/
theorem linesAt_eq_nil {lines : List Text} (blank : ∀ line ∈ lines, isBlankText line = true) :
    linesAt (fun index => !isLoose false lines index) lines = [] := by
  induction lines with
  | nil => rfl
  | cons line others inductionHypothesis =>
    obtain ⟨here, later⟩ := List.forall_mem_cons.mp blank
    rw [linesAt_cons]
    simp only [isLoose_zero, isLoose_succ, isFence_of_isBlankText here, here, Bool.xor_false]
    exact inductionHypothesis later

/-- The lines of a blank text are blank. -/
theorem isBlankText_of_mem_splitOn {separator : Char} {text piece : Text}
    (blank : isBlankText text = true) (listed : piece ∈ splitOn separator text) :
    isBlankText piece = true := by
  have part : piece.Sublist text := by
    rw [← joinWith_splitOn separator text]
    exact joinWith_sublist [separator] (List.singleton_sublist.mpr listed)
  exact List.all_eq_true.mpr fun c member => List.all_eq_true.mp blank c (part.subset member)

/-- A document that is blank throughout is finished to a single empty line; in any other one
exactly the loose lines behind a loose line go away. In both cases the lines that are visible
or inside a code fence stay as they are, no loose line stands behind another, and nothing is
left for a second run. -/
theorem finishLayout_lines (text : Text) :
    splitOn '\n' (finishLayout text) =
        (if AllBlank text then [[]] else
          linesAt (fun index => !isSurplus false false (splitOn '\n' text) index)
            (splitOn '\n' text)) ∧
      linesAt (fun index => !isLoose false (splitOn '\n' (finishLayout text)) index)
          (splitOn '\n' (finishLayout text)) =
        linesAt (fun index => !isLoose false (splitOn '\n' text) index) (splitOn '\n' text) ∧
      (∀ index, isSurplus false false (splitOn '\n' (finishLayout text)) index = false) ∧
      finishLayout (finishLayout text) = finishLayout text := by
  cases blank : isBlankText text with
  | true =>
    have empty : finishLayout text = [] := by rw [finishLayout, if_pos blank]
    have nothing := linesAt_eq_nil fun line (listed : line ∈ splitOn '\n' text) =>
      isBlankText_of_mem_splitOn blank listed
    rw [empty, nothing]
    refine ⟨?_, linesAt_eq_nil (by decide), fun index => ?_, rfl⟩
    · rw [if_pos (isBlankText_iff.mp blank), splitOn]
    · cases index <;> simp [isSurplus, isLoose, splitOn]
  | false =>
    refine ⟨?_, ?_, ?_, finishLayout_idempotent text⟩
    · have shown : ¬ AllBlank text := fun all =>
        Bool.false_ne_true (blank.symm.trans (isBlankText_iff.mpr all))
      rw [splitOn_finishLayout blank, if_neg shown]
      exact dropSurplusBlankLines_eq_linesAt false false _
    · rw [splitOn_finishLayout blank]
      exact linesAt_dropSurplusBlankLines false false _
    · rw [splitOn_finishLayout blank]
      exact isSurplus_dropSurplusBlankLines false false _

end LatexMarkdown.Text
