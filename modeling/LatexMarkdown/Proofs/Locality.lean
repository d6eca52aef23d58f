import LatexMarkdown.Proofs.Bibliography
import LatexMarkdown.Proofs.CodeBlock

/-!
# What is read does not depend on what follows

A reader that comes to the end of what it reads inside a text reads the same there
whatever stands behind the text. Only a reader that fails may be helped by more text.
-/

namespace LatexMarkdown.Scan

/-! ## Delimiters -/

/-- A span up to an unescaped pattern does not depend on what follows the pattern. -/
theorem splitUnescaped?_append {pattern : Text} (nonempty : pattern ≠ []) {escaped : Bool}
    {text body rest : Text} (read : splitUnescaped? pattern escaped text = some (body, rest))
    (behind : Text) :
    splitUnescaped? pattern escaped (text ++ behind) = some (body, rest ++ behind) := by
  induction text generalizing escaped body with
  | nil =>
    have filled : pattern.isEmpty = false := List.isEmpty_eq_false_iff.mpr nonempty
    rw [splitUnescaped?, filled] at read
    cases read
  | cons c others inductionHypothesis =>
    have whole := splitUnescaped?_eq_append read
    rw [List.cons_append]
    rw [splitUnescaped?] at read ⊢
    split at read
    next after found =>
      obtain ⟨rfl, rfl⟩ := Prod.mk.inj (Option.some.inj read)
      split at found
      · cases found
      next free =>
        have start : c :: (others ++ behind) = pattern ++ (after ++ behind) := by
          rw [← List.cons_append, Text.dropFront?_eq_some_iff.mp found, List.append_assoc]
        rw [if_neg free, Text.dropFront?_eq_some_iff.mpr start]
    next unstarted =>
      obtain ⟨inner, later, rfl⟩ := keepFirst_eq_some read
      have still : (if escaped then none
          else Text.dropFront? pattern (c :: (others ++ behind))) = none := by
        split at unstarted
        next covered => rw [if_pos covered]
        next free =>
          -- The pattern is as long as it is further on, so it does not reach over the end.
          rw [if_neg free, Text.dropFront?_eq_none_iff, ← List.cons_append]
          rw [Text.dropFront?_eq_none_iff] at unstarted
          have short : pattern.length ≤ (c :: others).length := by
            rw [whole, List.length_append, List.length_append]
            omega
          exact fun start => unstarted
            (List.prefix_of_prefix_length_le start (List.prefix_append _ _) short)
      rw [still]
      simp only [inductionHypothesis later, keepFirst]

/-- Inline math does not depend on what follows its closing dollar. -/
theorem readDollars_append {escaped : Bool} {text body rest : Text}
    (read : readDollars escaped text = some (body, rest)) (behind : Text) :
    readDollars escaped (text ++ behind) = some (body, rest ++ behind) := by
  induction text generalizing escaped body with
  | nil => cases escaped <;> cases read
  | cons c others inductionHypothesis =>
    have keeps {escaped : Bool}
        (kept : keepFirst c (readDollars escaped others) = some (body, rest)) :
        keepFirst c (readDollars escaped (others ++ behind)) = some (body, rest ++ behind) := by
      obtain ⟨inner, later, rfl⟩ := keepFirst_eq_some kept
      rw [inductionHypothesis later]
      rfl
    rw [List.cons_append]
    cases escaped with
    | true => exact keeps read
    | false =>
      simp only [readDollars] at read ⊢
      split at read
      next backslash => exact (if_pos backslash).trans (keeps read)
      next other =>
      rw [if_neg other]
      split at read
      next dollar =>
        obtain ⟨rfl, rfl⟩ := Prod.mk.inj (Option.some.inj read)
        exact if_pos dollar
      next unclosed =>
      rw [if_neg unclosed]
      split at read
      · cases read
      next single =>
        -- The closing dollar is on the way, so no blank line is cut off here.
        obtain ⟨inner, later, rfl⟩ := keepFirst_eq_some read
        have member : '$' ∈ others := by
          rw [readDollars_eq_append later]
          exact List.mem_append_right inner List.mem_cons_self
        rw [Text.startsBlankLine_append member (by decide), if_neg single,
          inductionHypothesis later]
        rfl

/-! ## Environments -/

/-- The body of an environment does not depend on what follows its closing marker. -/
theorem readBody_append {name : Text} (bare : '\\' ∉ name) {text body rest : Text}
    (read : readBody name text = some (body, rest)) (behind : Text) :
    readBody name (text ++ behind) = some (body, rest ++ behind) := by
  rw [readBody] at read ⊢
  have opens := isMarker_beginMarker bare
  have closes := isMarker_endMarker bare
  obtain ⟨word, spelled, -⟩ := isMarker_endMarker bare
  have whole : text = body ++ '\\' :: (word ++ rest) := by
    rw [splitAtClosing_eq_append read, spelled, List.append_assoc, List.cons_append]
  -- The search reaches the backslash of the closing marker in the same way in both texts.
  rcases splitAtClosing_before opens closes 0 body with ⟨inner, outer, split, ends⟩ |
    ⟨reached, goesOn⟩
  · have earlier := ends (word ++ rest)
    rw [← whole, read] at earlier
    obtain ⟨rfl, -⟩ := Prod.mk.inj (Option.some.inj earlier)
    have length := congrArg List.length split
    rw [spelled] at length
    simp at length
  · have here := goesOn (word ++ rest)
    rw [← whole, read, ← List.cons_append, ← spelled] at here
    have filled := endMarker_ne_nil name
    cases reached with
    | zero =>
      rw [whole, List.append_assoc, List.cons_append, List.append_assoc, goesOn,
        ← List.cons_append, ← spelled, splitAtClosing_ends filled]
      simp
    | succ outer =>
      -- A deeper search would keep the closing marker in the body.
      rw [splitAtClosing_closing filled, Option.map_map, eq_comm, Option.map_eq_some_iff] at here
      obtain ⟨found, -, kept⟩ := here
      have same : body ++ (endMarker name ++ found.1) = body := congrArg Prod.fst kept
      simp [filled] at same

/-- What is dropped from the front of a text, but not all of it, is dropped whatever follows. -/
theorem dropWhile_append_of_ne_nil {skipped : Char → Bool} {text : Text}
    (ends : text.dropWhile skipped ≠ []) (behind : Text) :
    (text ++ behind).dropWhile skipped = text.dropWhile skipped ++ behind := by
  rw [List.dropWhile_append, if_neg (by rwa [List.isEmpty_iff])]

/-- A gap that ends inside a text ends there whatever follows. -/
theorem skipGap_append {text : Text} (ends : Text.skipGap text ≠ []) (behind : Text) :
    Text.skipGap (text ++ behind) = Text.skipGap text ++ behind :=
  dropWhile_append_of_ne_nil ends behind

/-- Required arguments do not depend on what follows the last one. -/
theorem readRequired_append {count : Nat} {text rest : Text} {arguments : List Text}
    (read : readRequired count text = some (arguments, rest)) (behind : Text) :
    readRequired count (text ++ behind) = some (arguments, rest ++ behind) := by
  induction count generalizing text arguments with
  | zero =>
    obtain ⟨rfl, rfl⟩ := Prod.mk.inj (Option.some.inj read)
    rfl
  | succ count inductionHypothesis =>
    obtain ⟨inner, after, others, braced, later, rfl⟩ := readRequired_succ_iff.mp read
    have gap : Text.skipGap text ≠ [] := by
      intro empty
      rw [empty] at braced
      cases braced
    refine readRequired_succ_iff.mpr
      ⟨inner, after ++ behind, others, ?_, inductionHypothesis later, rfl⟩
    rw [skipGap_append gap, readBraced_append braced]

/-- Options do not depend on what follows the argument behind them. -/
theorem readOptions_append {limit : Nat} {text rest : Text} {options : List Text}
    (read : readOptions limit text = some (options, rest))
    (argued : limit = 0 ∨ Text.skipGap rest ≠ []) (behind : Text) :
    readOptions limit (text ++ behind) = some (options, rest ++ behind) := by
  induction limit generalizing text options with
  | zero =>
    obtain ⟨rfl, rfl⟩ := Prod.mk.inj (Option.some.inj read)
    rfl
  | succ limit inductionHypothesis =>
    have visible : Text.skipGap rest ≠ [] := argued.resolve_left (Nat.succ_ne_zero limit)
    rw [readOptions_succ_iff] at read ⊢
    rcases read with ⟨bracket, inner, after, others, bracketed, later, rfl⟩ | ⟨unbracketed, rfl, rfl⟩
    · have gap : Text.skipGap text ≠ [] := by
        intro empty
        rw [empty] at bracket
        cases bracket
      have head : (Text.skipGap text ++ behind).head? = some '[' := by
        rw [List.head?_append, bracket]
        rfl
      rw [skipGap_append gap]
      exact .inl ⟨head, inner, after ++ behind, others, readBracketed_append bracketed behind,
        inductionHypothesis later (.inr visible), rfl⟩
    · obtain ⟨c, others, found⟩ := List.exists_cons_of_ne_nil visible
      rw [skipGap_append visible, found]
      rw [found] at unbracketed
      exact .inr ⟨unbracketed, rfl, rfl⟩

/-- Whether a signature ends where it says: options that may be missing are told from
what follows only by a required argument behind them. -/
def EndsItself (maxOptions required : Nat) : Prop :=
  maxOptions = 0 ∨ required ≠ 0

/-- The arguments of an environment do not depend on what follows them. -/
theorem readArguments_append {maxOptions required : Nat} (ends : EndsItself maxOptions required)
    {text rest : Text} {arguments : Arguments}
    (read : readArguments ⟨false, maxOptions, required⟩ text = some (arguments, rest))
    (behind : Text) :
    readArguments ⟨false, maxOptions, required⟩ (text ++ behind) =
      some (arguments, rest ++ behind) := by
  rw [readArguments_iff] at read ⊢
  obtain ⟨unstarred, middle, optionsRead, givenRead⟩ := read
  rw [Bool.false_and] at unstarred
  rw [unstarred, if_neg Bool.false_ne_true] at optionsRead ⊢
  have argued : maxOptions = 0 ∨ Text.skipGap middle ≠ [] := by
    refine ends.imp_right fun needed empty => ?_
    obtain ⟨count, rfl⟩ := Nat.exists_eq_succ_of_ne_zero needed
    simp only [readRequired, empty] at givenRead
    cases givenRead
  exact ⟨rfl, middle ++ behind, readOptions_append optionsRead argued behind,
    readRequired_append givenRead behind⟩

/-- An environment is read up to the same closing marker whatever follows it. -/
theorem readEnvironment_append {name : Text} (bare : '\\' ∉ name) {maxOptions required : Nat}
    (ends : EndsItself maxOptions required) {cursor : Cursor} {text rest : Text}
    {environment : Environment}
    (read : readEnvironment name maxOptions required cursor text = some (environment, rest))
    (behind : Text) :
    ∃ same, readEnvironment name maxOptions required cursor (text ++ behind) =
      some (same, rest ++ behind) := by
  obtain ⟨free, after, inside, rfl, argumentsRead, bodyRead, starts, -⟩ :=
    readEnvironment_eq_some_iff.mp read
  have longer : beginMarker name ++ after ++ behind = beginMarker name ++ (after ++ behind) :=
    List.append_assoc ..
  -- only the place where the environment stops is counted over the longer text
  let stop := cursor.offset + (Text.utf8Length (beginMarker name ++ after ++ behind) -
    Text.utf8Length (rest ++ behind))
  refine ⟨{ environment with stop := stop }, readEnvironment_eq_some_iff.mpr
    ⟨free, after ++ behind, inside ++ behind, longer, ?_, ?_, starts, rfl⟩⟩
  · exact readArguments_append ends argumentsRead behind
  · exact readBody_append bare bodyRead behind

end LatexMarkdown.Scan
