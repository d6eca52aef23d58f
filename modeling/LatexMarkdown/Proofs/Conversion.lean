import LatexMarkdown.Block.Environment
import LatexMarkdown.Proofs.Matches

/-!
# How theorem-like environments are converted

A conversion goes over a text from left to right. It keeps what is between the environments,
and writes each environment around the conversion of its body. What holds of the kept pieces,
and is handed on from a body to what is written around it, holds of the whole.
-/

namespace LatexMarkdown.Block

open Scan

/-- How many braced arguments an environment takes. -/
def argumentCount (style : Theorem) : Nat :=
  if style.name = "thebibliography".toList then 1 else 0

/-- A text is converted to another one: nothing of it is converted, or a first environment is
written out around its converted body, and the rest is converted. -/
inductive Converted (context : TheoremContext) : Text → Text → Prop
  | kept (text : Text) : Converted context text text
  | environment {before matched rest name inner written : Text} {style : Theorem}
      {cursor : Cursor} {found : Environment} (free : escapesAfter false before = false)
      (opens : readOpeningName (matched ++ rest) = some name)
      (known : findTheorem? context.defined name = some style)
      (isEnvironment : IsEnvironment name 1 (argumentCount style) cursor matched rest found)
      (body : Converted context found.body inner) (more : Converted context rest written) :
      Converted context (before ++ (matched ++ rest))
        (before ++ (style.render context.options context.store (found.arguments.option? 0) inner ++
          written))

variable {context : TheoremContext}

/-- The rule for environments leaves a position alone, or writes the environment there. -/
theorem theoremRule_cases (nested : Text → Text) (cursor : Cursor) (text : Text) :
    theoremRule context nested () cursor text = ((), none) ∨
      ∃ matched rest name style found, text = matched ++ rest ∧ readOpeningName text = some name ∧
        findTheorem? context.defined name = some style ∧
          IsEnvironment name 1 (argumentCount style) cursor matched rest found ∧
            theoremRule context nested () cursor text = ((), some (Edit.upTo text rest
              (style.render context.options context.store (found.arguments.option? 0)
                (nested found.body)))) := by
  rw [theoremRule]
  cases opened : readOpeningName text with
  | none => exact .inl rfl
  | some name =>
    cases known : findTheorem? context.defined name with
    | none =>
      exact .inl (by simp only [known, Option.bind_eq_bind, Option.bind_some, Option.bind_none])
    | some style =>
      cases read : readEnvironment name 1 (argumentCount style) cursor text with
      | none =>
        refine .inl ?_
        rw [argumentCount] at read
        simp only [known, read, Option.bind_eq_bind, Option.bind_some, Option.bind_none]
      | some pair =>
        obtain ⟨found, rest⟩ := pair
        obtain ⟨matched, split, isEnvironment⟩ := readEnvironment_iff.mp read
        refine .inr ⟨matched, rest, name, style, found, split, rfl, known, isEnvironment, ?_⟩
        rw [argumentCount] at read
        simp only [known, read, Option.bind_eq_bind, Option.bind_some]

/-- A conversion from a position on, behind a piece that is kept. -/
theorem converted_editFrom {nested : Text → Text}
    (bodies : ∀ body, Converted context body (nested body)) {before : Text} {cursor : Cursor}
    (stands : cursor.escaped = escapesAfter false before) (text : Text) :
    Converted context (before ++ text)
      (before ++ (editFrom (theoremRule context nested) () cursor 0 text).2) := by
  induction size : text.length using Nat.strong_induction_on generalizing before cursor text with
  | _ size inductionHypothesis =>
  subst size
  cases text with
  | nil => exact .kept _
  | cons c rest =>
    rcases theoremRule_cases nested cursor (c :: rest) with
      silent | ⟨matched, behind, name, style, found, split, opened, known, isEnvironment, offered⟩
    · rw [editFrom_keep silent]
      have moved : (cursor.advance c).escaped = escapesAfter false (before ++ [c]) := by
        rw [escapesAfter_append, ← stands]
        rfl
      simpa using inductionHypothesis rest.length (Nat.lt_succ_self _) moved rest rfl
    · obtain ⟨piece, spelled, -⟩ := isEnvironment.spelled
      have nonempty : matched ≠ [] := by
        rw [spelled]
        exact List.append_ne_nil_of_left_ne_nil (beginMarker_ne_nil name) _
      have shorter : behind.length < (c :: rest).length := by
        rw [split, List.length_append]
        exact Nat.lt_add_of_pos_left (List.length_pos_of_ne_nil nonempty)
      have closed : (cursor.advanceOver matched).escaped = escapesAfter false [] := by
        rw [spelled, ← List.append_assoc, ← List.append_assoc]
        exact Cursor.advanceOver_endMarker cursor _ name
      rw [split] at opened offered ⊢
      rw [editFrom_replace nonempty offered]
      have free : escapesAfter false before = false := stands ▸ isEnvironment.unescaped
      exact .environment free opened known isEnvironment (bodies found.body)
        (inductionHypothesis behind.length shorter closed behind rfl)

/-- The conversion of theorem-like environments converts a text as a whole. -/
theorem converted_convertTheorems (text : Text) :
    Converted context text (convertTheorems context text) := by
  have atDepth (depth : Nat) :
      ∀ text, Converted context text (convertTheoremsAt context depth text) := by
    induction depth with
    | zero => exact .kept
    | succ depth inductionHypothesis =>
      have stands : Cursor.start.escaped = escapesAfter false [] := rfl
      exact converted_editFrom inductionHypothesis stands
  exact atDepth text.length text

end LatexMarkdown.Block
