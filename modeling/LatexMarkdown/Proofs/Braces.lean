import LatexMarkdown.Proofs.Occurrence
import LatexMarkdown.Proofs.Turning
import LatexMarkdown.Proofs.Unescaped

/-!
# Braces that balance

A braced group ends at the first brace that closes one from before it. How deep a text goes
can be counted piece by piece, so a group is read from the pieces that its inside is made of.
-/

namespace LatexMarkdown.Scan

/-- How deep in braces a text goes on behind a piece, if that closes none from before. -/
def braceDepth : (depth : Nat) → (escaped : Bool) → Text → Option Nat
  | depth, _, [] => some depth
  | depth, escaped, c :: rest =>
    (braceStep depth escaped c).bind fun next => braceDepth next (escapesNext escaped c) rest

section Braces

variable {depth next : Nat} {escaped : Bool} {text : Text}

theorem braceDepth_append (depth : Nat) (escaped : Bool) (first second : Text) :
    braceDepth depth escaped (first ++ second) =
      (braceDepth depth escaped first).bind fun next =>
        braceDepth next (escapesAfter escaped first) second := by
  induction first generalizing depth escaped with
  | nil => rfl
  | cons c rest inductionHypothesis =>
    rw [List.cons_append, braceDepth, braceDepth, Option.bind_assoc]
    exact Option.bind_congr fun next _ => inductionHypothesis next _

/-- Inside further braces a character goes as deep, counted from there. -/
theorem braceStep_deeper {c : Char} (step : braceStep depth escaped c = some next) (more : Nat) :
    braceStep (depth + more) escaped c = some (next + more) := by
  simp only [braceStep] at step ⊢
  split_ifs at step ⊢ <;> simp_all <;> omega

/-- Inside further braces a text goes as deep, counted from there. -/
theorem braceDepth_deeper (walks : braceDepth depth escaped text = some next) (more : Nat) :
    braceDepth (depth + more) escaped text = some (next + more) := by
  induction text generalizing depth escaped with
  | nil =>
    obtain rfl := Option.some.inj walks
    rfl
  | cons c rest inductionHypothesis =>
    obtain ⟨middle, step, behind⟩ := Option.bind_eq_some_iff.mp walks
    rw [braceDepth, braceStep_deeper step]
    exact inductionHypothesis behind

/-- What can stand in an argument by itself leaves the depth as it is. -/
theorem braceDepth_of_isArgument (isArgument : IsArgument text) :
    braceDepth depth false text = some depth := by
  induction text with
  | nil => rfl
  | cons c rest inductionHypothesis =>
    obtain ⟨here, later⟩ := List.forall_mem_cons.mp isArgument
    simp only [List.mem_cons, List.not_mem_nil, or_false, not_or] at here
    rw [braceDepth, braceStep, if_neg Bool.false_ne_true, if_neg here.2.1, if_neg here.2.2,
      Option.bind_some, escapesNext_of_ne here.1, inductionHypothesis later]

/-- A piece whose braces balance is passed at any depth. -/
theorem braceDepth_balanced {piece : Text} (balanced : braceDepth 0 false piece = some 0)
    (free : escapesAfter false piece = false) (depth : Nat) (rest : Text) :
    braceDepth depth false (piece ++ rest) = braceDepth depth false rest := by
  have deeper := braceDepth_deeper balanced depth
  rw [Nat.zero_add] at deeper
  rw [braceDepth_append, deeper, free, Option.bind_some]

theorem braceDepth_argument {piece : Text} (isArgument : IsArgument piece) (rest : Text) :
    braceDepth depth false (piece ++ rest) = braceDepth depth false rest :=
  braceDepth_balanced (braceDepth_of_isArgument isArgument)
    (escapesAfter_of_plain isArgument.plain) depth rest

/-- A braced group is read up to the brace behind a text that balances. -/
theorem readBracedRest_iff {inner rest : Text} :
    readBracedRest depth escaped text = some (inner, rest) ↔
      text = inner ++ '}' :: rest ∧ braceDepth depth escaped inner = some 0 ∧
        escapesAfter escaped inner = false := by
  induction text generalizing depth escaped inner with
  | nil =>
    have ended : readBracedRest depth escaped [] = none := by cases escaped <;> rfl
    rw [ended]
    simp
  | cons c others inductionHypothesis =>
    rw [readBracedRest_cons]
    cases step : braceStep depth escaped c with
    | none =>
      obtain ⟨rfl, rfl, rfl⟩ := braceStep_eq_none_iff.mp step
      cases inner with
      | nil => simp [braceDepth, eq_comm]
      | cons d inner =>
        simp only [Option.some.injEq, Prod.mk.injEq, List.cons_append, List.cons.injEq]
        refine iff_of_false (fun same => List.cons_ne_nil _ _ same.1.symm) ?_
        rintro ⟨⟨rfl, -⟩, walks, -⟩
        rw [braceDepth, step] at walks
        cases walks
    | some next =>
      cases inner with
      | nil =>
        refine iff_of_false (fun kept => ?_) ?_
        · obtain ⟨inner, -, same⟩ := keepFirst_eq_some kept
          cases same
        · rintro ⟨split, walks, free⟩
          have ended : braceStep depth escaped c = none :=
            braceStep_eq_none_iff.mpr ⟨free, (List.cons.inj split).1, Option.some.inj walks⟩
          rw [ended] at step
          cases step
      | cons d inner =>
        have kept : keepFirst c (readBracedRest next (escapesNext escaped c) others) =
            some (d :: inner, rest) ↔ c = d ∧
              readBracedRest next (escapesNext escaped c) others = some (inner, rest) := by
          constructor
          · intro kept
            obtain ⟨same, read, split⟩ := keepFirst_eq_some kept
            obtain ⟨rfl, rfl⟩ := List.cons.inj split
            exact ⟨rfl, read⟩
          · rintro ⟨rfl, read⟩
            rw [read]
            rfl
        refine kept.trans ?_
        rw [inductionHypothesis, List.cons_append, List.cons.injEq, and_assoc]
        refine and_congr_right ?_
        rintro rfl
        rw [braceDepth, step, Option.bind_some, escapesAfter_cons]

/-- A brace from before is closed in a text that closes it and all that it opens. -/
theorem exists_readBracedRest {more : Nat}
    (closes : braceDepth (depth + 1 + more) escaped text = some 0) :
    ∃ inner rest, readBracedRest depth escaped text = some (inner, rest) := by
  induction text generalizing depth escaped with
  | nil =>
    have closed := Option.some.inj closes
    omega
  | cons c others inductionHypothesis =>
    rw [readBracedRest_cons]
    cases step : braceStep depth escaped c with
    | none => exact ⟨[], others, rfl⟩
    | some next =>
      rw [braceDepth, Nat.add_assoc, braceStep_deeper step, ← Nat.add_assoc] at closes
      obtain ⟨inner, rest, read⟩ := inductionHypothesis closes
      exact ⟨c :: inner, rest, congrArg (keepFirst c) read⟩

/-- Where a text closes all that it opens, a group in it is read alike with anything behind. -/
theorem readBraced_append_of_closes {c : Char} (closes : braceDepth depth false (c :: text) = some 0)
    (back : Text) :
    readBraced (c :: (text ++ back)) =
      (readBraced (c :: text)).map fun (inner, rest) => (inner, rest ++ back) := by
  by_cases opening : c = '{'
  · subst opening
    have inside : braceDepth (0 + 1 + depth) false text = some 0 := by
      rw [Nat.zero_add, Nat.add_comm]
      exact closes
    obtain ⟨inner, rest, read⟩ := exists_readBracedRest inside
    obtain ⟨split, walks, free⟩ := readBracedRest_iff.mp read
    have further : readBracedRest 0 false (text ++ back) = some (inner, rest ++ back) :=
      readBracedRest_iff.mpr ⟨by rw [split, List.append_assoc, List.cons_append], walks, free⟩
    simp only [readBraced, if_true, read, further, Option.map_some]
  · simp only [readBraced, if_neg opening, Option.map_none]

end Braces

end LatexMarkdown.Scan
