import LatexMarkdown.Proofs.CheckedGroups
import LatexMarkdown.Proofs.MatchingEnd

/-!
# Checked searches

The searches for a command, for the end of an environment, for a whole environment and for the
end of a definition, as loops over offsets with checked slices.
-/

namespace LatexMarkdown

open Checked

namespace Text

/-- A text is split in front of a pattern exactly where the pattern starts first. -/
theorem splitFirst?_iff {pattern text front rest : Text} :
    splitFirst? pattern text = some (front, rest) ↔ text = front ++ (pattern ++ rest) ∧
      ∀ suffix, suffix <:+ front → suffix ≠ [] → ¬ pattern <+: suffix ++ (pattern ++ rest) := by
  induction text generalizing front rest with
  | nil =>
    rw [splitFirst?]
    split
    next empty =>
      obtain rfl := List.isEmpty_iff.mp empty
      rw [Option.some.injEq, Prod.mk.injEq]
      constructor
      · rintro ⟨rfl, rfl⟩
        exact ⟨rfl, fun suffix within filled => absurd (List.suffix_nil.mp within) filled⟩
      · rintro ⟨split, -⟩
        rw [List.nil_append, eq_comm, List.append_eq_nil_iff] at split
        exact ⟨split.1.symm, split.2.symm⟩
    next filled =>
      refine iff_of_false (fun found => by cases found) fun found => filled ?_
      have none := found.1
      rw [eq_comm, List.append_eq_nil_iff, List.append_eq_nil_iff] at none
      exact List.isEmpty_iff.mpr none.2.1
  | cons c others inductionHypothesis =>
    rw [splitFirst?]
    split
    next after found =>
      obtain whole := dropFront?_eq_some_iff.mp found
      rw [Option.some.injEq, Prod.mk.injEq]
      constructor
      · rintro ⟨rfl, rfl⟩
        exact ⟨whole, fun suffix within filled => absurd (List.suffix_nil.mp within) filled⟩
      · rintro ⟨split, first⟩
        by_cases empty : front = []
        · subst empty
          exact ⟨rfl, List.append_cancel_left (whole.symm.trans split)⟩
        · refine absurd ?_ (first front (List.suffix_refl front) empty)
          rw [← split, whole]
          exact List.prefix_append pattern after
    next unfound =>
      have silent := dropFront?_eq_none_iff.mp unfound
      simp only [Option.map_eq_some_iff, Prod.exists, Prod.mk.injEq, inductionHypothesis]
      constructor
      · rintro ⟨inner, last, ⟨rfl, first⟩, rfl, rfl⟩
        refine ⟨rfl, fun suffix within filled => ?_⟩
        rcases List.suffix_cons_iff.mp within with rfl | inside
        · exact silent
        · exact first suffix inside filled
      · rintro ⟨split, first⟩
        cases front with
        | nil => exact absurd ⟨rest, split.symm⟩ silent
        | cons d inner =>
          obtain ⟨rfl, rfl⟩ := List.cons.inj split
          exact ⟨inner, rest, ⟨rfl, fun suffix within =>
            first suffix (within.trans (List.suffix_cons _ _))⟩, rfl, rfl⟩

theorem splitFirst?_eq_none_iff {pattern text : Text} :
    splitFirst? pattern text = none ↔ ¬ pattern <:+: text := by
  induction text with
  | nil => simp [splitFirst?, List.isEmpty_iff]
  | cons c rest inductionHypothesis =>
    rw [splitFirst?, List.infix_cons_iff]
    split
    next after found =>
      refine iff_of_false (fun unsplit => by cases unsplit) (not_not_intro (.inl ⟨after, ?_⟩))
      exact (dropFront?_eq_some_iff.mp found).symm
    next unfound =>
      rw [Option.map_eq_none_iff, inductionHypothesis, not_or]
      exact (and_iff_right (dropFront?_eq_none_iff.mp unfound)).symm

/-- A text is split at the first character of a kind. -/
theorem splitFirst?_character (c : Char) (text : Text) :
    splitFirst? [c] text = match text.dropWhile (· ≠ c) with
      | [] => none
      | _ :: rest => some (text.takeWhile (· ≠ c), rest) := by
  induction text with
  | nil => rfl
  | cons d others inductionHypothesis =>
    rw [splitFirst?, dropFront?]
    by_cases same : c = d
    · subst same
      simp [dropFront?]
    · have other : d ≠ c := Ne.symm same
      simp only [if_neg same, inductionHypothesis, List.dropWhile_cons, List.takeWhile_cons, other,
        ne_eq, not_false_eq_true, decide_true, if_true]
      cases others.dropWhile (fun d => decide (¬ d = c)) <;> rfl

theorem splitFirst?_append_cons {c : Char} {front : Text} (absent : c ∉ front) (rest : Text) :
    splitFirst? [c] (front ++ c :: rest) = some (front, rest) := by
  have passed : ∀ d ∈ front, (decide (d ≠ c)) = true := fun d member =>
    decide_eq_true fun same => absent (same ▸ member)
  rw [splitFirst?_character, List.dropWhile_append_of_pos passed,
    List.takeWhile_append_of_pos passed]
  simp

end Text

namespace Scan

open Text

/-! ## Commands -/

/-- A step of the search for a command: to the next backslash. -/
def commandStep (name text : Text) (_ : Unit) (search : Nat) : Checked (Move Unit Nat) := do
  let suffix ← sliceFrom text search
  let (front, _) ← sound (splitFirst? ['\\'] suffix)
  let position := search + utf8Length front
  let behind ← sliceFrom text (position + 1)
  if startsWith name behind && !isEscapedAt false text position then do
    let further ← sliceFrom text (position + 1 + utf8Length name)
    if startsWithLetter further then pure (.jump () (position + 1)) else pure (.stop position)
  else pure (.jump () (position + 1))

/-- Scan for the first unescaped use of a command from an offset on. -/
def walkCommand (name text : Text) (start : Nat) : Checked Nat :=
  repeatFrom (utf8Length text) (commandStep name text) (fun _ => failure) () start

/-- Up to a backslash no command is found. -/
theorem findCommandFrom_append (name : Text) {front : Text} (plain : '\\' ∉ front) (cursor : Cursor)
    (rest : Text) :
    findCommandFrom name cursor (front ++ rest) =
      findCommandFrom name (cursor.advanceOver front) rest := by
  induction front generalizing cursor with
  | nil => rfl
  | cons c others inductionHypothesis =>
    rw [List.mem_cons, not_or] at plain
    have unnamed : afterCommand? name (c :: (others ++ rest)) = none :=
      if_neg (Ne.symm plain.1)
    rw [List.cons_append, findCommandFrom, unnamed, Option.isSome_none, Bool.and_false,
      if_neg Bool.false_ne_true, inductionHypothesis plain.2]
    rfl

/-- A step of the search looks at the next backslash. -/
theorem commandStep_eq {text before front rest : Text}
    (split : text = before ++ (front ++ '\\' :: rest)) (bare : '\\' ∉ front) (name : Text) :
    commandStep name text () (utf8Length before) = sound (some
      (if !isEscapedAt false text (utf8Length (before ++ front)) &&
        (afterCommand? name ('\\' :: rest)).isSome then .stop (utf8Length (before ++ front))
      else .jump () (utf8Length (before ++ front) + 1))) := by
  have here : text = before ++ front ++ '\\' :: rest := by rw [split, List.append_assoc]
  rw [commandStep, sliceFrom_of_split split, sound_some_bind, splitFirst?_append_cons bare,
    sound_some_bind]
  simp only [← utf8Length_append, sliceFrom_cons here (by decide), sound_some_bind]
  rw [afterCommand?, if_pos rfl, startsWith]
  cases found : dropFront? name rest with
  | none => simp
  | some after =>
    obtain rfl := dropFront?_eq_some_iff.mp found
    have further : text = before ++ front ++ ['\\'] ++ name ++ after := by rw [split]; simp
    have behind := sliceFrom_of_split further
    rw [utf8Length_append _ name, utf8Length_concat] at behind
    change sliceFrom text (utf8Length (before ++ front) + 1 + utf8Length name) = _ at behind
    cases isEscapedAt false text (utf8Length (before ++ front)) <;>
      cases letter : startsWithLetter after <;> simp [behind, letter]

theorem walkCommand_eq {text before suffix : Text} (split : text = before ++ suffix)
    (name : Text) :
    walkCommand name text (utf8Length before) =
      sound (findCommandFrom name (Cursor.start.advanceOver before) suffix) := by
  induction length : suffix.length using Nat.strong_induction_on generalizing before suffix with
  | _ length inductionHypothesis =>
  subst length
  by_cases member : '\\' ∈ suffix
  · obtain ⟨front, rest, rfl, bare⟩ := List.eq_append_cons_of_mem member
    have here : text = before ++ front ++ '\\' :: rest := by rw [split, List.append_assoc]
    have step := commandStep_eq split bare name
    have inside : utf8Length before < utf8Length text := by
      have longer := utf8Length_lt_of_split here
      exact Nat.lt_of_le_of_lt (utf8Length_le_append before front) longer
    have cursor := Cursor.at_offset_eq (before ++ front) ('\\' :: rest)
    rw [← here] at cursor
    rw [findCommandFrom_append _ bare, ← Cursor.advanceOver_append, ← cursor, findCommandFrom]
    split at step
    next found =>
      rw [if_pos found]
      exact repeatFrom_stop (some _) inside step
    next unfound =>
      have moves : utf8Length before < utf8Length (before ++ front) + 1 := by
        rw [utf8Length_append]
        omega
      have shorter : rest.length < (front ++ '\\' :: rest).length := by
        rw [List.length_append, List.length_cons]
        omega
      have further : text = before ++ front ++ ['\\'] ++ rest := by rw [here, List.append_cons]
      have goesOn := inductionHypothesis _ shorter further rfl
      rw [utf8Length_concat] at goesOn
      rw [if_neg unfound, walkCommand, repeatFrom_jump inside step moves, cursor]
      rw [Cursor.advanceOver_append _ (before ++ front)] at goesOn
      exact goesOn
  · have unsplit : splitFirst? ['\\'] suffix = none :=
      splitFirst?_eq_none_iff.mpr fun occurs => member (occurs.subset List.mem_cons_self)
    have unfound : findCommandFrom name (Cursor.start.advanceOver before) suffix = none := by
      have passed :=
        findCommandFrom_append name member (Cursor.start.advanceOver before) []
      rwa [List.append_nil] at passed
    rw [unfound]
    by_cases inside : utf8Length before < utf8Length text
    · refine repeatFrom_stop none inside ?_
      rw [commandStep, sliceFrom_of_split split, sound_some_bind, unsplit]
      rfl
    · exact repeatFrom_end (Nat.le_of_not_lt inside)

/-! ## Closing markers -/

/-- A step of the search for the closing marker of an environment, with the number of
environments that are open: to the next marker. -/
def closingStep (name text : Text) (depth index : Nat) : Checked (Move Nat (Nat × Nat)) := do
  let suffix ← sliceFrom text index
  let (front, _) ← sound (splitFirst? (endMarker name) suffix)
  let position := index + utf8Length front
  let between ← slice text index position
  match splitFirst? (beginMarker name) between with
  | some (unopened, _) =>
    pure (.jump (depth + 1) (index + utf8Length unopened + utf8Length (beginMarker name)))
  | none => do
    let depth ← decrement depth
    if depth = 0 then pure (.stop (position, position + utf8Length (endMarker name)))
    else pure (.jump depth (position + utf8Length (endMarker name)))

/-- Scan for the closing marker of an environment whose body starts at an offset. -/
def walkClosing (name text : Text) (start : Nat) : Checked (Nat × Nat) :=
  repeatFrom (utf8Length text + 1) (closingStep name text) (fun _ => fail .slice) 1 start

/-- What a step of the search for a closing marker does behind a front of the text. -/
inductive ClosingMove (name before suffix : Text) (depth : Nat) :
    Option (Move Nat (Nat × Nat)) → Prop
  | none (absent : ¬ endMarker name <:+: suffix) : ClosingMove name before suffix depth none
  | opens {front between rest : Text}
      (split : suffix = front ++ (beginMarker name ++ (between ++ (endMarker name ++ rest))))
      (unopened : Silent (beginMarker name) front (beginMarker name ++ between))
      (unclosed : Silent (endMarker name) (front ++ (beginMarker name ++ between))
        (endMarker name ++ rest)) :
      ClosingMove name before suffix depth
        (some (.jump (depth + 2) (utf8Length (before ++ (front ++ beginMarker name)))))
  | ends {front rest : Text} (split : suffix = front ++ (endMarker name ++ rest))
      (unopened : ¬ beginMarker name <:+: front)
      (unclosed : Silent (endMarker name) front (endMarker name ++ rest)) (outermost : depth = 0) :
      ClosingMove name before suffix depth
        (some (.stop (utf8Length (before ++ front),
          utf8Length (before ++ (front ++ endMarker name)))))
  | closes {front rest : Text} (split : suffix = front ++ (endMarker name ++ rest))
      (unopened : ¬ beginMarker name <:+: front)
      (unclosed : Silent (endMarker name) front (endMarker name ++ rest)) (inner : depth ≠ 0) :
      ClosingMove name before suffix depth
        (some (.jump depth (utf8Length (before ++ (front ++ endMarker name)))))

theorem closingStep_eq {text before suffix : Text} (split : text = before ++ suffix)
    (name : Text) (depth : Nat) :
    ∃ move, closingStep name text (depth + 1) (utf8Length before) = sound move ∧
      ClosingMove name before suffix depth move := by
  rw [closingStep, sliceFrom_of_split split, sound_some_bind]
  cases found : splitFirst? (endMarker name) suffix with
  | none => exact ⟨none, rfl, .none (splitFirst?_eq_none_iff.mp found)⟩
  | some pair =>
    obtain ⟨front, rest⟩ := pair
    obtain ⟨whole, unclosed⟩ := splitFirst?_iff.mp found
    have here : text = before ++ front ++ (endMarker name ++ rest) := by
      rw [split, whole, List.append_assoc]
    have between := slice_of_split here
    simp only [sound_some_bind, ← utf8Length_append, between]
    cases opening : splitFirst? (beginMarker name) front with
    | some pair =>
      obtain ⟨unopened, more⟩ := pair
      obtain ⟨rfl, first⟩ := splitFirst?_iff.mp opening
      refine ⟨_, ?_, .opens (whole.trans (by simp)) first unclosed⟩
      simp only [List.append_assoc, pure_eq_sound]
    | none =>
      have unopened := splitFirst?_eq_none_iff.mp opening
      simp only [decrement_succ, sound_some_bind]
      by_cases outermost : depth = 0
      · refine ⟨_, ?_, .ends whole unopened unclosed outermost⟩
        simp only [if_pos outermost, List.append_assoc, pure_eq_sound]
      · refine ⟨_, ?_, .closes whole unopened unclosed outermost⟩
        simp only [if_neg outermost, List.append_assoc, pure_eq_sound]

section Closing

variable {name : Text}

/-- A longer text behind a front does not start what the shorter one does not start. -/
theorem not_prefix_append_longer {marker front behind : Text}
    (silent : ¬ marker <+: front ++ marker ++ behind) (rest : Text) :
    ¬ marker <+: front ++ marker ++ behind ++ rest := by
  intro start
  refine silent (List.prefix_of_prefix_length_le start (List.prefix_append _ rest) ?_)
  simp only [List.length_append]
  omega

/-- Up to an opening marker in front of the next closing one, and over it, the search for the
closing marker passes one level deeper. -/
theorem splitAtClosing_opens {front between rest : Text}
    (unopened : Silent (beginMarker name) front (beginMarker name ++ between))
    (unclosed : Silent (endMarker name) (front ++ (beginMarker name ++ between))
      (endMarker name ++ rest)) (depth : Nat) :
    splitAtClosing (beginMarker name) (endMarker name) depth 0
        (front ++ (beginMarker name ++ (between ++ (endMarker name ++ rest)))) =
      (splitAtClosing (beginMarker name) (endMarker name) (depth + 1) 0
        (between ++ (endMarker name ++ rest))).map
          fun (body, after) => (front ++ (beginMarker name ++ body), after) := by
  have inside : Silent (endMarker name) (beginMarker name) (between ++ (endMarker name ++ rest)) := by
    rintro piece ⟨more, split⟩ filled
    have silent := unclosed (piece ++ between) ⟨front ++ more, by simp [← split]⟩
      (List.append_ne_nil_of_left_ne_nil filled between)
    rwa [List.append_assoc] at silent
  rw [splitAtClosing_pass (fun piece within filled => ⟨?_, ?_⟩),
    splitAtClosing_opening (beginMarker_ne_nil name) inside, Option.map_map]
  · rfl
  · have silent := unopened piece within filled
    rw [← List.append_assoc] at silent
    have longer := not_prefix_append_longer silent (endMarker name ++ rest)
    simpa only [List.append_assoc] using longer
  · obtain ⟨more, rfl⟩ := within
    have silent := unclosed (piece ++ (beginMarker name ++ between)) ⟨more, by simp⟩
      (List.append_ne_nil_of_left_ne_nil filled _)
    simpa only [List.append_assoc] using silent

/-- Up to a closing marker in front of all opening ones the search passes. -/
theorem splitAtClosing_reaches {front rest : Text} (unopened : ¬ beginMarker name <:+: front)
    (unclosed : Silent (endMarker name) front (endMarker name ++ rest)) (depth : Nat) :
    splitAtClosing (beginMarker name) (endMarker name) depth 0
        (front ++ (endMarker name ++ rest)) =
      (splitAtClosing (beginMarker name) (endMarker name) depth 0 (endMarker name ++ rest)).map
        fun (body, after) => (front ++ body, after) := by
  refine splitAtClosing_uncounted unclosed (fun piece within _ starts => ?_) depth
  -- The opening marker ends behind the piece, so the closing one starts in it.
  obtain ⟨behind, split⟩ := starts
  by_contra silent
  rw [Bool.not_eq_true, ← split, startsWithin_iff_silent] at silent
  have outside (more : Text) : piece ≠ beginMarker name ++ more := by
    rintro rfl
    exact unopened ((List.prefix_append _ more).isInfix.trans within.isInfix)
  rcases List.append_eq_append_iff.mp split with ⟨more, same, -⟩ | ⟨last, same, starts⟩
  · exact outside more same
  · refine silent last ⟨piece, same.symm⟩ ?_ ⟨rest, starts⟩
    rintro rfl
    exact outside [] (by simpa using same.symm)

theorem repeatFrom_closingStep {text before suffix : Text} (split : text = before ++ suffix)
    (depth : Nat) :
    repeatFrom (utf8Length text + 1) (closingStep name text) (fun _ => fail .slice) (depth + 1)
      (utf8Length before) = sound
        ((splitAtClosing (beginMarker name) (endMarker name) depth 0 suffix).map fun (body, _) =>
          (utf8Length (before ++ body), utf8Length (before ++ (body ++ endMarker name)))) := by
  induction length : suffix.length using Nat.strong_induction_on
    generalizing before suffix depth with
  | _ length inductionHypothesis =>
  subst length
  have inside : utf8Length before < utf8Length text + 1 := by
    rw [split, utf8Length_append]
    omega
  have moves {front marker : Text} (filled : marker ≠ []) :
      utf8Length before < utf8Length (before ++ (front ++ marker)) :=
    utf8Length_lt_append before (List.append_ne_nil_of_right_ne_nil front filled)
  have shorter {front marker : Text} (rest : Text) (filled : marker ≠ []) :
      rest.length < (front ++ (marker ++ rest)).length := by
    have wide := List.length_pos_of_ne_nil filled
    simp only [List.length_append]
    omega
  obtain ⟨move, steps, stepped⟩ := closingStep_eq split name depth
  cases stepped with
  | none absent =>
    have unfound : splitAtClosing (beginMarker name) (endMarker name) depth 0 suffix = none := by
      cases found : splitAtClosing (beginMarker name) (endMarker name) depth 0 suffix with
      | none => rfl
      | some pair => exact absurd ⟨_, _, (splitAtClosing_eq_append found).symm⟩ absent
    rw [unfound]
    exact repeatFrom_stop none inside steps
  | @opens front between rest whole unopened unclosed =>
    have filled := beginMarker_ne_nil name
    have further : text = before ++ (front ++ beginMarker name) ++
        (between ++ (endMarker name ++ rest)) := by rw [split, whole]; simp
    have goesOn := inductionHypothesis _ (by rw [whole]; exact shorter _ filled) further
      (depth + 1) rfl
    rw [repeatFrom_jump inside steps (moves filled), goesOn, whole,
      splitAtClosing_opens unopened unclosed, Option.map_map]
    simp only [Function.comp_def, List.append_assoc]
  | @ends front rest whole unopened unclosed outermost =>
    subst outermost
    rw [whole, splitAtClosing_reaches unopened unclosed,
      splitAtClosing_ends (endMarker_ne_nil name)]
    refine repeatFrom_stop (some _) inside ?_
    rw [steps]
    simp
  | @closes front rest whole unopened unclosed inner =>
    obtain ⟨outer, rfl⟩ := Nat.exists_eq_succ_of_ne_zero inner
    have filled := endMarker_ne_nil name
    have further : text = before ++ (front ++ endMarker name) ++ rest := by rw [split, whole]; simp
    have goesOn := inductionHypothesis _ (by rw [whole]; exact shorter _ filled) further outer rfl
    rw [repeatFrom_jump inside steps (moves filled), goesOn, whole,
      splitAtClosing_reaches unopened unclosed, splitAtClosing_closing filled,
      Option.map_map, Option.map_map]
    simp only [Function.comp_def, List.append_assoc]

theorem walkClosing_eq {text before suffix : Text} (split : text = before ++ suffix) :
    walkClosing name text (utf8Length before) =
      sound (findClosingAt name text (utf8Length before)) := by
  rw [walkClosing, repeatFrom_closingStep split 0]
  simp only [findClosingAt, suffixAt?_of_split split, readBody, Option.bind_eq_bind,
    Option.bind_some, utf8Length_append, ← Nat.add_assoc]
  cases splitAtClosing (beginMarker name) (endMarker name) 0 0 suffix <;> rfl

end Closing

/-! ## Environments -/

/-- Scan the environment whose opening marker stands at an offset. -/
def walkOpened (name : Text) (maxOptions required : Nat) (text : Text) (start : Nat) :
    Checked Environment :=
  if isEscapedAt false text start then failure
  else do
    let (arguments, bodyStart) ←
      walkArguments ⟨false, maxOptions, required⟩ text (start + utf8Length (beginMarker name))
    let (bodyStop, stop) ← walkClosing name text bodyStart
    let body ← slice text bodyStart bodyStop
    pure ⟨start, stop, arguments, body⟩

/-- A step of the search for an environment: to the next opening marker. -/
def environmentStep (name : Text) (maxOptions required : Nat) (text : Text) (_ : Unit)
    (search : Nat) : Checked (Move Unit Environment) := do
  let suffix ← sliceFrom text search
  let (front, _) ← sound (splitFirst? (beginMarker name) suffix)
  let start := search + utf8Length front
  match ← attempt (walkOpened name maxOptions required text start) with
  | some environment => pure (.stop environment)
  | none => pure (.jump () (start + utf8Length (beginMarker name)))

/-- Scan for the first complete environment from an offset on. -/
def walkEnvironment (name : Text) (maxOptions required : Nat) (text : Text) (start : Nat) :
    Checked Environment :=
  repeatFrom (utf8Length text) (environmentStep name maxOptions required text)
    (fun _ => failure) () start

section Environment

variable {name : Text} {maxOptions required : Nat} {text before : Text}

/-- Where the opening marker does not occur any more, a step finds nothing. -/
theorem environmentStep_absent {suffix : Text} (split : text = before ++ suffix)
    (absent : ¬ beginMarker name <:+: suffix) :
    environmentStep name maxOptions required text () (utf8Length before) = sound none := by
  rw [environmentStep, sliceFrom_of_split split, sound_some_bind,
    splitFirst?_eq_none_iff.mpr absent]
  rfl

/-- A step looks at the next opening marker and ends there or goes on behind the marker. -/
theorem environmentStep_eq {front rest : Text} {found : Option Environment}
    (split : text = before ++ (front ++ (beginMarker name ++ rest)))
    (first : Silent (beginMarker name) front (beginMarker name ++ rest))
    (opened : walkOpened name maxOptions required text (utf8Length (before ++ front)) =
      sound found) :
    environmentStep name maxOptions required text () (utf8Length before) =
      sound (some (found.elim (.jump () (utf8Length (before ++ (front ++ beginMarker name))))
        .stop)) := by
  rw [environmentStep, sliceFrom_of_split split, sound_some_bind, splitFirst?_iff.mpr ⟨rfl, first⟩,
    sound_some_bind]
  simp only [← utf8Length_append, opened, attempt_sound, sound_some_bind, List.append_assoc]
  cases found <;> rfl

variable (maxOptions required) in
theorem walkOpened_eq {rest : Text} (split : text = before ++ (beginMarker name ++ rest)) :
    walkOpened name maxOptions required text (utf8Length before) =
      sound ((readEnvironment name maxOptions required (Cursor.start.advanceOver before)
        (beginMarker name ++ rest)).map Prod.fst) := by
  have cursor := Cursor.at_offset_eq before (beginMarker name ++ rest)
  rw [← split] at cursor
  rw [walkOpened, readEnvironment, dropFront?_append, ← cursor]
  split
  · rfl
  have behindMarker : text = before ++ beginMarker name ++ rest := by rw [split, List.append_assoc]
  rw [← utf8Length_append, walkArguments_eq behindMarker]
  simp only [Option.bind_eq_bind, Option.bind_some]
  cases read : readArguments ⟨false, maxOptions, required⟩ rest with
  | none => rfl
  | some pair =>
    obtain ⟨arguments, inside⟩ := pair
    obtain ⟨piece, rfl⟩ := readArguments_suffix read
    have behind : text = before ++ beginMarker name ++ piece ++ inside := by
      rw [behindMarker]
      simp
    rw [← sound_located arguments behind, pure_eq_sound, sound_some_bind]
    simp only [walkClosing_eq behind, findClosingAt, suffixAt?_of_split behind,
      Option.bind_eq_bind, Option.bind_some]
    cases closed : readBody name inside with
    | none => rfl
    | some pair =>
      obtain ⟨body, last⟩ := pair
      obtain rfl : inside = body ++ (endMarker name ++ last) := by
        rw [splitAtClosing_eq_append closed, List.append_assoc]
      rw [← List.append_assoc] at behind
      have sliced := slice_of_split behind
      rw [utf8Length_append _ body] at sliced
      simp only [Option.bind_some, sound_some_bind, sliced, Option.map_some, pure_eq_sound]
      congr 3
      simp only [utf8Length_append]
      omega

theorem walkEnvironment_eq {suffix : Text} (split : text = before ++ suffix) :
    walkEnvironment name maxOptions required text (utf8Length before) =
      sound (findEnvironmentFrom name maxOptions required (Cursor.start.advanceOver before) 0
        suffix) := by
  induction length : suffix.length using Nat.strong_induction_on generalizing before suffix with
  | _ length inductionHypothesis =>
  subst length
  cases opening : splitFirst? (beginMarker name) suffix with
  | none =>
    have absent := splitFirst?_eq_none_iff.mp opening
    have silent : Silent (beginMarker name) suffix [] := fun piece within _ start =>
      absent ((List.append_nil piece ▸ start).isInfix.trans within.isInfix)
    have unfound : findEnvironmentFrom name maxOptions required
        (Cursor.start.advanceOver before) 0 (suffix ++ []) = _ :=
      findEnvironmentFrom_append silent _
    rw [List.append_nil] at unfound
    rw [unfound]
    by_cases inside : utf8Length before < utf8Length text
    · exact repeatFrom_stop none inside (environmentStep_absent split absent)
    · exact repeatFrom_end (Nat.le_of_not_lt inside)
  | some pair =>
    obtain ⟨front, rest⟩ := pair
    obtain ⟨rfl, first⟩ := splitFirst?_iff.mp opening
    have here : text = before ++ front ++ (beginMarker name ++ rest) := by
      rw [split, List.append_assoc]
    have filled := utf8Length_pos (beginMarker_ne_nil name)
    have inside : utf8Length before < utf8Length text := by
      rw [split]
      simp only [utf8Length_append]
      omega
    have opened := walkOpened_eq maxOptions required here
    rw [findEnvironmentFrom_append first, ← Cursor.advanceOver_append]
    cases read : readEnvironment name maxOptions required
        (Cursor.start.advanceOver (before ++ front)) (beginMarker name ++ rest) with
    | some pair =>
      obtain ⟨c, word, marker⟩ := List.exists_cons_of_ne_nil (beginMarker_ne_nil name)
      rw [read] at opened
      have step := environmentStep_eq split first opened
      rw [marker, List.cons_append] at read ⊢
      rw [findEnvironmentFrom, read]
      exact repeatFrom_stop (some _) inside step
    | none =>
      rw [read] at opened
      have step := environmentStep_eq split first opened
      have further : text = before ++ (front ++ beginMarker name) ++ rest := by rw [split]; simp
      have shorter : rest.length < (front ++ (beginMarker name ++ rest)).length := by
        have wide := List.length_pos_of_ne_nil (beginMarker_ne_nil name)
        simp only [List.length_append]
        omega
      have moves : utf8Length before < utf8Length (before ++ (front ++ beginMarker name)) := by
        simp only [utf8Length_append]
        omega
      rw [walkEnvironment, repeatFrom_jump inside step moves, findEnvironmentFrom_marker read,
        ← Cursor.advanceOver_append, List.append_assoc]
      exact inductionHypothesis _ shorter further rfl

end Environment

end Scan

end LatexMarkdown
