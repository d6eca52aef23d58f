import LatexMarkdown.Proofs.Characters
import LatexMarkdown.Proofs.Occurrence

/-!
# Groups step by step

Inside a group every character changes what is open in one way, and the group ends where a
character closes it. What is known about the readers of groups follows from this one step by
induction: how they split a text, and that what follows a group does not matter to them.
-/

namespace LatexMarkdown

namespace Text

/-- Where something visible follows on the line, no blank line starts. -/
theorem startsBlankLine_append {text : Text} {c : Char} (member : c ∈ text)
    (visible : isBlank c = false) (behind : Text) :
    startsBlankLine (text ++ behind) = startsBlankLine text := by
  have remains : text.dropWhile isSpaceOrTab ≠ [] := by
    rw [Ne, List.dropWhile_eq_nil_iff]
    intro spaces
    exact Bool.false_ne_true ((isSpaceOrTab_of_visible visible).symm.trans (spaces c member))
  obtain ⟨d, others, found⟩ := List.exists_cons_of_ne_nil remains
  rw [startsBlankLine, startsBlankLine, List.dropWhile_append, found]
  rfl

end Text

namespace Scan

/-- A character other than a backslash escapes nothing. -/
theorem escapesNext_of_ne {c : Char} (different : c ≠ '\\') (escaped : Bool) :
    escapesNext escaped c = false := by
  rw [escapesNext, decide_eq_false different, Bool.false_and]

/-- What is escaped escapes nothing. -/
theorem escapesNext_true (c : Char) : escapesNext true c = false :=
  Bool.and_false _

/-- A reader that keeps a character in front of another reading splits the text where
that reading does. -/
theorem keepFirst_eq_append {c : Char} {reading : Option (Text × Text)}
    {text inner rest behind : Text} (kept : keepFirst c reading = some (inner, rest))
    (splits : ∀ inner, reading = some (inner, rest) → text = inner ++ behind) :
    c :: text = inner ++ behind := by
  obtain ⟨others, read, rfl⟩ := keepFirst_eq_some kept
  rw [splits others read, List.cons_append]

/-! ## Braced groups -/

section Braces

variable {depth : Nat} {escaped : Bool} {text inner rest : Text}

/-- How deep in braces a text goes on behind a character, if that closes none from before. -/
def braceStep (depth : Nat) (escaped : Bool) (c : Char) : Option Nat :=
  if escaped then some depth
  else if c = '{' then some (depth + 1)
  else if c = '}' then (if depth = 0 then none else some (depth - 1))
  else some depth

theorem braceStep_eq_none_iff {c : Char} :
    braceStep depth escaped c = none ↔ escaped = false ∧ c = '}' ∧ depth = 0 := by
  rw [braceStep]
  split_ifs <;> simp_all

/-- A reader of a braced group goes on as deep as the braces say, and ends where they would
close one from before. -/
theorem readBracedRest_cons (depth : Nat) (escaped : Bool) (c : Char) (rest : Text) :
    readBracedRest depth escaped (c :: rest) =
      match braceStep depth escaped c with
      | none => some ([], rest)
      | some next => keepFirst c (readBracedRest next (escapesNext escaped c) rest) := by
  cases escaped with
  | true =>
    rw [readBracedRest, braceStep, if_pos rfl, escapesNext_true]
  | false =>
    by_cases backslash : c = '\\'
    · rw [backslash]
      rfl
    rw [escapesNext_of_ne backslash, braceStep, if_neg Bool.false_ne_true]
    simp only [readBracedRest, if_neg backslash]
    by_cases opening : c = '{'
    · rw [if_pos opening, if_pos opening]
    rw [if_neg opening, if_neg opening]
    by_cases closing : c = '}'
    · rw [if_pos closing, if_pos closing]
      cases depth <;> rfl
    · rw [if_neg closing, if_neg closing]

/-- A braced group is its inside, then the closing brace, then the rest. -/
theorem readBracedRest_eq_append (read : readBracedRest depth escaped text = some (inner, rest)) :
    text = inner ++ '}' :: rest := by
  induction text generalizing depth escaped inner with
  | nil => cases escaped <;> cases read
  | cons c after inductionHypothesis =>
    rw [readBracedRest_cons] at read
    cases step : braceStep depth escaped c with
    | none =>
      rw [step] at read
      obtain ⟨-, rfl, -⟩ := braceStep_eq_none_iff.mp step
      obtain ⟨rfl, rfl⟩ := Prod.mk.inj (Option.some.inj read)
      rfl
    | some next =>
      rw [step] at read
      exact keepFirst_eq_append read fun _ => inductionHypothesis

theorem readBracedRest_append (read : readBracedRest depth escaped text = some (inner, rest))
    (behind : Text) :
    readBracedRest depth escaped (text ++ behind) = some (inner, rest ++ behind) := by
  induction text generalizing depth escaped inner with
  | nil => cases escaped <;> cases read
  | cons c after inductionHypothesis =>
    rw [readBracedRest_cons] at read
    rw [List.cons_append, readBracedRest_cons]
    cases step : braceStep depth escaped c with
    | none =>
      rw [step] at read
      obtain ⟨rfl, rfl⟩ := Prod.mk.inj (Option.some.inj read)
      rfl
    | some next =>
      rw [step] at read
      obtain ⟨others, found, rfl⟩ := keepFirst_eq_some read
      simp only [inductionHypothesis found, keepFirst]

/-- A braced group with its braces. -/
theorem readBraced_eq_append (read : readBraced text = some (inner, rest)) :
    text = '{' :: (inner ++ '}' :: rest) := by
  cases text with
  | nil => cases read
  | cons c after =>
    rw [readBraced] at read
    split at read
    next opening => rw [opening, readBracedRest_eq_append read]
    · cases read

/-- What follows a braced group does not matter to its reader. -/
theorem readBraced_append (read : readBraced text = some (inner, rest)) (behind : Text) :
    readBraced (text ++ behind) = some (inner, rest ++ behind) := by
  cases text with
  | nil => cases read
  | cons c after =>
    rw [readBraced] at read
    rw [List.cons_append, readBraced]
    split at read
    next opening => rw [if_pos opening, readBracedRest_append read]
    · cases read

/-- A braced group at the start of a text leaves a suffix. -/
theorem readBraced_suffix (read : readBraced text = some (inner, rest)) : rest <:+ text :=
  ⟨'{' :: (inner ++ ['}']), by rw [readBraced_eq_append read]; simp⟩

end Braces

/-! ## Bracketed groups -/

section Brackets

variable {braces brackets : Nat} {escaped : Bool} {text inner rest : Text}

/-- How many braces and brackets are open behind a character of a bracketed group, if that does
not close the group. -/
def bracketStep (braces brackets : Nat) (escaped : Bool) (c : Char) : Option (Nat × Nat) :=
  if escaped then some (braces, brackets)
  else if c = '{' then some (braces + 1, brackets)
  else if c = '}' then some (braces - 1, brackets)
  else if c = '[' ∧ braces = 0 then some (braces, brackets + 1)
  else if c = ']' ∧ braces = 0 then (if brackets = 0 then none else some (braces, brackets - 1))
  else some (braces, brackets)

/-- Whether a bracketed group breaks off at a character: outside braces a blank line starts
behind it. -/
def breaksOff (braces : Nat) (escaped : Bool) (c : Char) (rest : Text) : Bool :=
  !escaped && c = '\n' && braces = 0 && Text.startsBlankLine rest

theorem eq_of_breaksOff {c : Char} (breaks : breaksOff braces escaped c rest = true) : c = '\n' := by
  simp only [breaksOff, Bool.and_eq_true, decide_eq_true_eq] at breaks
  exact breaks.1.1.2

theorem bracketStep_eq_none_iff {c : Char} : bracketStep braces brackets escaped c = none ↔
    escaped = false ∧ c = ']' ∧ braces = 0 ∧ brackets = 0 := by
  rw [bracketStep]
  split_ifs <;> simp_all

/-- A reader of a bracketed group goes on with what the step leaves open, and ends where that
closes the group. -/
theorem readBracketedRest_cons (braces brackets : Nat) (escaped : Bool) (c : Char) (rest : Text) :
    readBracketedRest braces brackets escaped (c :: rest) =
      match bracketStep braces brackets escaped c with
      | none => some ([], rest)
      | some (nextBraces, nextBrackets) =>
        if breaksOff braces escaped c rest then none
        else keepFirst c
          (readBracketedRest nextBraces nextBrackets (escapesNext escaped c) rest) := by
  cases escaped with
  | true =>
    rw [readBracketedRest, bracketStep, if_pos rfl, escapesNext_true]
    rfl
  | false =>
    by_cases backslash : c = '\\'
    · rw [backslash]
      rfl
    rw [escapesNext_of_ne backslash, bracketStep, if_neg Bool.false_ne_true]
    simp only [readBracketedRest, if_neg backslash]
    by_cases opening : c = '{'
    · rw [if_pos opening, if_pos opening, opening]
      rfl
    rw [if_neg opening, if_neg opening]
    by_cases closing : c = '}'
    · rw [if_pos closing, if_pos closing, closing]
      rfl
    rw [if_neg closing, if_neg closing]
    by_cases bracket : c = '[' ∧ braces = 0
    · rw [if_pos bracket, if_pos (by simpa using bracket), bracket.1]
      rfl
    rw [if_neg bracket, if_neg (by simpa using bracket)]
    by_cases ending : c = ']' ∧ braces = 0
    · rw [if_pos ending, if_pos (by simpa using ending), ending.1]
      cases brackets <;> rfl
    rw [if_neg ending, if_neg (by simpa using ending)]
    rfl

/-- A bracketed group is its inside, then the closing bracket, then the rest. -/
theorem readBracketedRest_eq_append
    (read : readBracketedRest braces brackets escaped text = some (inner, rest)) :
    text = inner ++ ']' :: rest := by
  induction text generalizing braces brackets escaped inner with
  | nil => cases escaped <;> cases read
  | cons c after inductionHypothesis =>
    rw [readBracketedRest_cons] at read
    cases step : bracketStep braces brackets escaped c with
    | none =>
      rw [step] at read
      obtain ⟨-, rfl, -⟩ := bracketStep_eq_none_iff.mp step
      obtain ⟨rfl, rfl⟩ := Prod.mk.inj (Option.some.inj read)
      rfl
    | some next =>
      rw [step] at read
      simp only at read
      split at read
      · cases read
      · exact keepFirst_eq_append read fun _ => inductionHypothesis

theorem readBracketedRest_append
    (read : readBracketedRest braces brackets escaped text = some (inner, rest)) (behind : Text) :
    readBracketedRest braces brackets escaped (text ++ behind) = some (inner, rest ++ behind) := by
  induction text generalizing braces brackets escaped inner with
  | nil => cases escaped <;> cases read
  | cons c after inductionHypothesis =>
    rw [readBracketedRest_cons] at read
    rw [List.cons_append, readBracketedRest_cons]
    cases step : bracketStep braces brackets escaped c with
    | none =>
      rw [step] at read
      obtain ⟨rfl, rfl⟩ := Prod.mk.inj (Option.some.inj read)
      rfl
    | some next =>
      rw [step] at read
      simp only at read
      split at read
      · cases read
      next goesOn =>
        -- The closing bracket is on the way, so no blank line is cut off here.
        obtain ⟨others, found, rfl⟩ := keepFirst_eq_some read
        have member : ']' ∈ after := by
          rw [readBracketedRest_eq_append found]
          exact List.mem_append_right _ List.mem_cons_self
        rw [breaksOff] at goesOn ⊢
        simp only [Text.startsBlankLine_append member (by decide), if_neg goesOn,
          inductionHypothesis found, keepFirst]

/-- A bracketed group with its brackets. -/
theorem readBracketed_eq_append (read : readBracketed text = some (inner, rest)) :
    text = '[' :: (inner ++ ']' :: rest) := by
  cases text with
  | nil => cases read
  | cons c after =>
    rw [readBracketed] at read
    split at read
    next opening => rw [opening, readBracketedRest_eq_append read]
    · cases read

/-- What follows a bracketed group does not matter to its reader. -/
theorem readBracketed_append (read : readBracketed text = some (inner, rest)) (behind : Text) :
    readBracketed (text ++ behind) = some (inner, rest ++ behind) := by
  cases text with
  | nil => cases read
  | cons c after =>
    rw [readBracketed] at read
    rw [List.cons_append, readBracketed]
    split at read
    next opening => rw [if_pos opening, readBracketedRest_append read]
    · cases read

/-- A bracketed group at the start of a text leaves a suffix. -/
theorem readBracketed_suffix (read : readBracketed text = some (inner, rest)) : rest <:+ text :=
  ⟨'[' :: (inner ++ [']']), by rw [readBracketed_eq_append read]; simp⟩

end Brackets

end Scan

end LatexMarkdown
