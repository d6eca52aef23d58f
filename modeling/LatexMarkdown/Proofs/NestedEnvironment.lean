import LatexMarkdown.Block.Environment
import LatexMarkdown.Proofs.Locality
import LatexMarkdown.Proofs.DeclaredTheorem

/-!
# Theorem-like environments inside one another

What stands around an environment does not change how it is read: its option and its
argument end in its own body or nowhere, and its body ends at its own closing marker. An
environment is therefore converted inside another one as it is by itself, and the outer
one is written around the result.
-/

namespace LatexMarkdown

open Scan

namespace Scan

/-! ## Arguments that end in a body -/

/-- What cannot end an argument that is open before it: it starts a command, has no
closing bracket, and closes no brace that is not opened in it. -/
structure EndsNothing (behind : Text) : Prop where
  starts : behind.head? = some '\\'
  bracketless : ']' ∉ behind
  unclosed : ∀ depth escaped, readBracedRest depth escaped behind = none

theorem map_keepFirst (c : Char) (behind : Text) (read : Option (Text × Text)) :
    keepFirst c (read.map fun (inner, rest) => (inner, rest ++ behind)) =
      (keepFirst c read).map fun (inner, rest) => (inner, rest ++ behind) := by
  cases read <;> rfl

/-- A braced group ends before what closes none. -/
theorem readBracedRest_append_eq {behind : Text}
    (unclosed : ∀ depth escaped, readBracedRest depth escaped behind = none) (depth : Nat)
    (escaped : Bool) (text : Text) :
    readBracedRest depth escaped (text ++ behind) =
      (readBracedRest depth escaped text).map fun (inner, rest) => (inner, rest ++ behind) := by
  induction text generalizing depth escaped with
  | nil =>
    have ended : readBracedRest depth escaped [] = none := by cases escaped <;> rfl
    rw [List.nil_append, unclosed, ended]
    rfl
  | cons c others inductionHypothesis =>
    rw [List.cons_append, readBracedRest_cons, readBracedRest_cons]
    cases braceStep depth escaped c with
    | none => rfl
    | some next => simp only [inductionHypothesis, map_keepFirst]

/-- A braced group in text without closing braces goes on behind it. -/
theorem readBracedRest_of_not_mem {text : Text} (absent : '}' ∉ text) (depth : Nat)
    (escaped : Bool) : readBracedRest depth escaped text = none := by
  cases found : readBracedRest depth escaped text with
  | none => rfl
  | some pair => exact absurd (by simp [readBracedRest_eq_append found]) absent

/-- A bracketed group ends before what has no closing bracket. -/
theorem readBracketedRest_append_eq {behind : Text} (endsNothing : EndsNothing behind)
    (braces brackets : Nat) (escaped : Bool) (text : Text) :
    readBracketedRest braces brackets escaped (text ++ behind) =
      (readBracketedRest braces brackets escaped text).map
        fun (inner, rest) => (inner, rest ++ behind) := by
  induction text generalizing braces brackets escaped with
  | nil =>
    have ended : readBracketedRest braces brackets escaped [] = none := by cases escaped <;> rfl
    rw [List.nil_append, ended]
    cases found : readBracketedRest braces brackets escaped behind with
    | none => rfl
    | some pair =>
      exact absurd (by simp [readBracketedRest_eq_append found]) endsNothing.bracketless
  | cons c others inductionHypothesis =>
    have blank : Text.startsBlankLine (others ++ behind) = Text.startsBlankLine others := by
      obtain ⟨rest, rfl⟩ := List.head?_eq_some_iff.mp endsNothing.starts
      rw [Text.startsBlankLine, Text.startsBlankLine, List.dropWhile_append]
      split
      next empty =>
        rw [List.isEmpty_iff.mp empty]
        rfl
      next filled =>
        obtain ⟨d, more, split⟩ := List.exists_cons_of_ne_nil (mt List.isEmpty_iff.mpr filled)
        rw [split]
        rfl
    rw [List.cons_append, readBracketedRest_cons, readBracketedRest_cons]
    cases bracketStep braces brackets escaped c with
    | none => rfl
    | some next =>
      have alike : breaksOff braces escaped c (others ++ behind) =
          breaksOff braces escaped c others := by
        rw [breaksOff, breaksOff, blank]
      simp only [alike, inductionHypothesis, map_keepFirst]
      split_ifs <;> rfl

section Body

variable {behind : Text} (endsNothing : EndsNothing behind)

include endsNothing

/-- The gap before an argument ends before a command. -/
theorem EndsNothing.skipGap_append (text : Text) :
    Text.skipGap (text ++ behind) = Text.skipGap text ++ behind := by
  obtain ⟨rest, rfl⟩ := List.head?_eq_some_iff.mp endsNothing.starts
  rw [Text.skipGap, Text.skipGap, List.dropWhile_append]
  split
  next empty =>
    rw [List.isEmpty_iff.mp empty, List.dropWhile_cons_of_neg (by decide)]
    rfl
  · rfl

/-- An option and an argument of an environment are read in its body as they are in the
body by itself. -/
theorem readArguments_body (required : Nat) (body : Text) :
    readArguments ⟨false, 1, required⟩ (body ++ behind) =
      (readArguments ⟨false, 1, required⟩ body).map
        fun (arguments, rest) => (arguments, rest ++ behind) := by
  obtain ⟨tail, split⟩ := List.head?_eq_some_iff.mp endsNothing.starts
  have head (text : Text) {sign : Char} (other : sign ≠ '\\') :
      (text ++ behind).head? = some sign ↔ text.head? = some sign := by
    cases text with
    | nil => simp [split, Ne.symm other]
    | cons c others => rfl
  have bracketed (text : Text) : readBracketed (text ++ behind) =
      (readBracketed text).map fun (inner, rest) => (inner, rest ++ behind) := by
    cases text with
    | nil =>
      rw [List.nil_append, split]
      rfl
    | cons c others =>
      rw [List.cons_append, readBracketed, readBracketed, readBracketedRest_append_eq endsNothing]
      split <;> rfl
  have braced (text : Text) : readBraced (text ++ behind) =
      (readBraced text).map fun (inner, rest) => (inner, rest ++ behind) := by
    cases text with
    | nil =>
      rw [List.nil_append, split]
      rfl
    | cons c others =>
      rw [List.cons_append, readBraced, readBraced, readBracedRest_append_eq endsNothing.unclosed]
      split <;> rfl
  have options (text : Text) : readOptions 1 (text ++ behind) =
      (readOptions 1 text).map fun read => (read.1, read.2 ++ behind) := by
    simp only [readOptions, endsNothing.skipGap_append, head _ (by decide : '[' ≠ '\\'), bracketed]
    split
    · cases readBracketed (Text.skipGap text) <;> rfl
    · rfl
  have arguments (count : Nat) (text : Text) : readRequired count (text ++ behind) =
      (readRequired count text).map fun read => (read.1, read.2 ++ behind) := by
    induction count generalizing text with
    | zero => rfl
    | succ count inductionHypothesis =>
      simp only [readRequired, endsNothing.skipGap_append, braced]
      cases readBraced (Text.skipGap text) with
      | none => rfl
      | some pair =>
        simp only [Option.map_some, Option.bind_eq_bind, Option.bind_some, inductionHypothesis]
        cases readRequired count pair.2 <;> rfl
  simp only [readArguments, Bool.false_and, Bool.false_eq_true, if_false, options]
  cases readOptions 1 body with
  | none => rfl
  | some pair =>
    simp only [Option.map_some, Option.bind_eq_bind, Option.bind_some, arguments]
    cases readRequired required pair.2 <;> rfl

end Body

/-! ## What follows an environment -/

/-- The name of an environment, as its markers can spell it. -/
def IsEnvironmentName (name : Text) : Prop :=
  ∀ c ∈ name, c ∉ ['\\', '}', ']']

instance (name : Text) : Decidable (IsEnvironmentName name) :=
  inferInstanceAs (Decidable (∀ c ∈ name, c ∉ ['\\', '}', ']']))

/-- A text without any sign of a command or of an argument. -/
def IsCommandless (text : Text) : Prop :=
  ∀ c ∈ text, c ∉ ['\\', '{', '}', '[', ']']

instance (text : Text) : Decidable (IsCommandless text) :=
  inferInstanceAs (Decidable (∀ c ∈ text, c ∉ ['\\', '{', '}', '[', ']']))

theorem IsEnvironmentName.not_mem {name : Text} (isName : IsEnvironmentName name) {sign : Char}
    (listed : sign ∈ ['\\', '}', ']']) : sign ∉ name :=
  fun member => isName sign member listed

theorem IsCommandless.not_mem {text : Text} (commandless : IsCommandless text) {sign : Char}
    (listed : sign ∈ ['\\', '{', '}', '[', ']']) : sign ∉ text :=
  fun member => commandless sign member listed

theorem IsCommandless.isSealed {text : Text} (commandless : IsCommandless text) : IsSealed text :=
  ⟨Text.not_infix_of_not_mem (commandless.not_mem (by decide)),
    Text.not_infix_of_not_mem (commandless.not_mem (by decide))⟩

/-- A braced group that is open before a closing marker is open behind its name too. -/
theorem readBracedRest_name {name behind : Text} (isName : IsEnvironmentName name)
    (unclosed : ∀ depth escaped, readBracedRest depth escaped behind = none) (depth : Nat) :
    readBracedRest (depth + 1) false (name ++ '}' :: behind) = none := by
  induction name generalizing depth with
  | nil =>
    rw [List.nil_append, readBracedRest, if_neg (by decide), if_neg (by decide), if_pos rfl,
      unclosed]
    rfl
  | cons c others inductionHypothesis =>
    obtain ⟨plain, later⟩ := List.forall_mem_cons.mp isName
    have backslash : c ≠ '\\' := by
      rintro rfl
      exact plain (by decide)
    have closing : c ≠ '}' := by
      rintro rfl
      exact plain (by decide)
    rw [List.cons_append, readBracedRest, if_neg backslash]
    split_ifs
    · rw [inductionHypothesis later]
      rfl
    · rw [inductionHypothesis later]
      rfl

/-- A closing marker closes no brace that is open before it. -/
theorem readBracedRest_endMarker {name behind : Text} (isName : IsEnvironmentName name)
    (unclosed : ∀ depth escaped, readBracedRest depth escaped behind = none) (depth : Nat)
    (escaped : Bool) : readBracedRest depth escaped (endMarker name ++ behind) = none := by
  have spelled : endMarker name ++ behind =
      '\\' :: 'e' :: 'n' :: 'd' :: '{' :: (name ++ '}' :: behind) := by
    simp only [endMarker_eq, List.append_assoc, List.singleton_append]
    rfl
  have inside := readBracedRest_name isName unclosed depth
  rw [spelled]
  cases escaped <;> simp [readBracedRest, inside, keepFirst]

/-- What may stand behind an environment: it opens no other one, and it ends nothing that
is open before it. -/
structure IsQuiet (behind : Text) : Prop where
  unopened : ¬ Document.Inset.environmentOpening <:+: behind
  bracketless : ']' ∉ behind
  unclosed : ∀ depth escaped, readBracedRest depth escaped behind = none

theorem isMarker_environmentOpening : IsMarker Document.Inset.environmentOpening :=
  ⟨"begin\x7b".toList, rfl, by decide⟩

theorem isQuiet_nil : IsQuiet [] where
  unopened := by decide
  bracketless := List.not_mem_nil
  unclosed _ escaped := by cases escaped <;> rfl

/-- No environment opens in a closing marker. -/
theorem not_prefix_endMarker (name rest : Text) :
    ¬ Document.Inset.environmentOpening <+: endMarker name ++ rest := by
  intro start
  have second := List.cons_prefix_cons.mp (List.cons_prefix_cons.mp start).2
  exact absurd second.1 (by decide)

/-- A closing marker does not stand where an environment opens. -/
theorem endMarker_not_prefix (name other rest : Text) :
    ¬ endMarker name <+: beginMarker other ++ rest := by
  intro start
  have second := List.cons_prefix_cons.mp (List.cons_prefix_cons.mp start).2
  exact absurd second.1 (by decide)

namespace IsQuiet

variable {behind : Text} (isQuiet : IsQuiet behind)

include isQuiet

/-- A text without commands may stand in front. -/
theorem append {text : Text} (commandless : IsCommandless text) : IsQuiet (text ++ behind) where
  unopened occurs := isQuiet.unopened
    (isMarker_environmentOpening.infix_of_infix_word (commandless.not_mem (by decide)) occurs)
  bracketless := by
    rw [List.mem_append, not_or]
    exact ⟨commandless.not_mem (by decide), isQuiet.bracketless⟩
  unclosed depth escaped := by
    rw [readBracedRest_append_eq isQuiet.unclosed,
      readBracedRest_of_not_mem (commandless.not_mem (by decide))]
    rfl

/-- A closing marker may stand in front. -/
theorem endMarker {name : Text} (isName : IsEnvironmentName name) :
    IsQuiet (endMarker name ++ behind) where
  unopened occurs := by
    obtain ⟨word, marker, plain⟩ := isMarker_endMarker (isName.not_mem (by decide) : '\\' ∉ name)
    have unstarted := not_prefix_endMarker name behind
    rw [marker, List.cons_append] at occurs unstarted
    have later := (List.infix_cons_iff.mp occurs).resolve_left unstarted
    exact isQuiet.unopened (isMarker_environmentOpening.infix_of_infix_word plain later)
  bracketless := by
    have absent : ']' ∉ name := isName.not_mem (by decide)
    simp [endMarker_eq, absent, isQuiet.bracketless]
  unclosed := readBracedRest_endMarker isName isQuiet.unclosed

/-- Behind the closing marker of an environment nothing ends that is open in its body. -/
theorem endsNothing {name : Text} (isName : IsEnvironmentName name) :
    EndsNothing (Scan.endMarker name ++ behind) where
  starts := rfl
  bracketless := (isQuiet.endMarker isName).bracketless
  unclosed := (isQuiet.endMarker isName).unclosed

end IsQuiet

/-- A text without commands holds no argument: an environment that needs one is not read. -/
theorem readArguments_commandless {text : Text} (commandless : IsCommandless text)
    (required : Nat) (rest : Text) :
    readArguments ⟨false, 1, required⟩ (text ++ '\\' :: rest) =
      if required = 0 then some (⟨false, [], []⟩, text ++ '\\' :: rest) else none := by
  have shown : ∀ c, (Text.skipGap (text ++ '\\' :: rest)).head? = some c →
      c ≠ '[' ∧ c ≠ '{' := by
    induction text with
    | nil =>
      intro c head
      obtain rfl : '\\' = c := Option.some.inj head
      decide
    | cons d others inductionHypothesis =>
      obtain ⟨plain, later⟩ := List.forall_mem_cons.mp commandless
      intro c head
      rw [List.cons_append, Text.skipGap, List.dropWhile_cons] at head
      split at head
      · exact inductionHypothesis later c head
      · obtain rfl : d = c := Option.some.inj head
        simp only [List.mem_cons, not_or] at plain
        exact ⟨plain.2.2.2.1, plain.2.1⟩
  have optionless : (Text.skipGap (text ++ '\\' :: rest)).head? ≠ some '[' :=
    fun head => (shown _ head).1 rfl
  have unbraced : readBraced (Text.skipGap (text ++ '\\' :: rest)) = none := by
    cases visible : Text.skipGap (text ++ '\\' :: rest) with
    | nil => rfl
    | cons c others => rw [readBraced, if_neg (shown c (by rw [visible]; rfl)).2]
  simp only [readArguments, Bool.false_and, Bool.false_eq_true, if_false, readOptions, optionless,
    Option.bind_eq_bind, Option.bind_some]
  cases required with
  | zero => rfl
  | succ count =>
    rw [readRequired, unbraced, if_neg (Nat.succ_ne_zero count)]
    rfl

/-! ## A body with another environment in it -/

/-- Names that are followed by a closing brace are told apart by it. -/
theorem eq_of_prefix_brace {first second rest : Text} (firstClosed : '}' ∉ first)
    (secondClosed : '}' ∉ second) (start : first ++ ['}'] <+: second ++ '}' :: rest) :
    first = second := by
  obtain ⟨behind, same⟩ := start
  rw [List.append_assoc, List.singleton_append] at same
  have read := readEnclosed_append '{' firstClosed behind
  rw [same, readEnclosed_append '{' secondClosed, Option.some.injEq, Prod.mk.injEq] at read
  exact read.1.symm

section Nested

variable {outer inner : Text} (outerName : IsEnvironmentName outer)
  (innerName : IsEnvironmentName inner)

include outerName innerName

/-- The marker of another environment does not count. -/
theorem splitAtClosing_otherMarker (other : outer ≠ inner) {marker : Text}
    (listed : marker = beginMarker inner ∨ marker = endMarker inner) (depth : Nat) (rest : Text) :
    splitAtClosing (beginMarker outer) (endMarker outer) depth 0 (marker ++ rest) =
      (splitAtClosing (beginMarker outer) (endMarker outer) depth 0 rest).map
        fun (found, after) => (marker ++ found, after) := by
  have outerBare : '\\' ∉ outer := outerName.not_mem (by decide)
  have innerBare : '\\' ∉ inner := innerName.not_mem (by decide)
  have apart {front : Text} (start : front ++ '{' :: outer ++ ['}'] <+:
      front ++ '{' :: inner ++ ['}'] ++ rest) : False := by
    have named : outer ++ ['}'] <+: inner ++ '}' :: rest := by
      simpa [List.append_assoc, List.prefix_append_right_inj] using start
    exact other (eq_of_prefix_brace (outerName.not_mem (by decide)) (innerName.not_mem (by decide))
      named)
  have foreign : ¬ beginMarker outer <+: marker ++ rest ∧ ¬ endMarker outer <+: marker ++ rest := by
    rcases listed with rfl | rfl
    · exact ⟨apart, endMarker_not_prefix outer inner rest⟩
    · refine ⟨fun start => not_prefix_endMarker inner rest (List.IsPrefix.trans ?_ start), apart⟩
      exact ⟨outer ++ ['}'], rfl⟩
  have isMarker : IsMarker marker := by
    rcases listed with rfl | rfl
    · exact isMarker_beginMarker innerBare
    · exact isMarker_endMarker innerBare
  obtain ⟨word, rfl, plain⟩ := isMarker
  refine splitAtClosing_pass (fun suffix within nonempty => ?_) depth
  rcases List.suffix_cons_iff.mp within with rfl | inside
  · exact foreign
  · have free : '\\' ∉ suffix := fun member => plain (inside.subset member)
    exact ⟨(isMarker_beginMarker outerBare).not_prefix_inside free nonempty rest,
      (isMarker_endMarker outerBare).not_prefix_inside free nonempty rest⟩

variable {before body after : Text} (beforePlain : '\\' ∉ before) (isSealed : IsSealed body)
  (afterSealed : IsSealed after)

include isSealed

/-- A whole environment in a body is passed over, whatever its name is. -/
theorem splitAtClosing_nested (depth : Nat) (rest : Text) :
    splitAtClosing (beginMarker outer) (endMarker outer) depth 0 (enclosed inner body ++ rest) =
      (splitAtClosing (beginMarker outer) (endMarker outer) depth 0 rest).map
        fun (found, after) => (enclosed inner body ++ found, after) := by
  have outerBare : '\\' ∉ outer := outerName.not_mem (by decide)
  by_cases same : outer = inner
  · subst same
    exact splitAtClosing_enclosed outerBare isSealed depth rest
  · have inside : splitAtClosing (beginMarker outer) (endMarker outer) depth 0
        (body ++ (endMarker inner ++ rest)) =
          (splitAtClosing (beginMarker outer) (endMarker outer) depth 0
            (endMarker inner ++ rest)).map fun (found, after) => (body ++ found, after) := by
      obtain ⟨word, marker, -⟩ :=
        isMarker_endMarker (innerName.not_mem (by decide) : '\\' ∉ inner)
      rw [marker, List.cons_append, splitAtClosing_sealed outerBare isSealed]
    rw [enclosed, List.append_assoc, List.append_assoc,
      splitAtClosing_otherMarker outerName innerName same (.inl rfl), inside,
      splitAtClosing_otherMarker outerName innerName same (.inr rfl), Option.map_map,
      Option.map_map]
    simp [Function.comp_def]

include beforePlain afterSealed

/-- A body ends behind an environment in it. -/
theorem readBody_nested (rest : Text) :
    readBody outer (before ++ (enclosed inner body ++ (after ++ (endMarker outer ++ rest)))) =
      some (before ++ (enclosed inner body ++ after), rest) := by
  have outerBare : '\\' ∉ outer := outerName.not_mem (by decide)
  have ends := readBody_enclosed outerBare afterSealed rest
  rw [readBody] at ends
  rw [readBody, splitAtClosing_plain (isMarker_beginMarker outerBare)
    (isMarker_endMarker outerBare) beforePlain, splitAtClosing_nested outerName innerName isSealed,
    ends]
  rfl

end Nested

end Scan

end LatexMarkdown
