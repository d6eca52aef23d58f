import LatexMarkdown.Proofs.ByteWalk
import LatexMarkdown.Proofs.Counting

/-!
# Scans for groups, commands and environments

Each reader is stated once more as a walk over bytes, with checked slices and counters, and is
proved to be the reader itself: it commits no fault, and it finds what the reader finds.
-/

namespace LatexMarkdown

open Checked

namespace Text

/-- The offset at which a suffix of a text starts. -/
def offsetOf (text rest : Text) : Nat :=
  utf8Length text - utf8Length rest

theorem offsetOf_append {text before rest : Text} (split : text = before ++ rest) :
    offsetOf text rest = utf8Length before := by
  rw [offsetOf, split, utf8Length_append, Nat.add_sub_cancel]

/-- What has been passed in a text ends where the rest starts. -/
theorem offsetOf_passed {text before passed rest : Text}
    (split : text = before ++ (passed ++ rest)) :
    offsetOf text rest = utf8Length before + utf8Length passed := by
  rw [← List.append_assoc] at split
  rw [offsetOf_append split, utf8Length_append]

theorem offsetOf_cons {text before rest : Text} {c : Char} (split : text = before ++ c :: rest)
    (ascii : c.toNat < 128) : offsetOf text rest = utf8Length before + 1 := by
  rw [List.append_cons] at split
  rw [offsetOf_append split, utf8Length_concat, utf8Size_of_ascii ascii]

/-- A rest starts behind any front behind which it stands. -/
theorem isOffsetFrom_offsetOf {text before suffix rest : Text} (split : text = before ++ suffix)
    (isSuffix : rest <:+ suffix) :
    IsOffsetFrom text (utf8Length before) (offsetOf text rest) := by
  obtain ⟨piece, rfl⟩ := isSuffix
  rw [← List.append_assoc] at split
  rw [offsetOf_append split]
  exact isOffsetFrom_append split (utf8Length_le_append before piece)

/-- Behind a character of ASCII a slice starts at the next byte. -/
theorem sliceFrom_cons {text before rest : Text} {c : Char} (split : text = before ++ c :: rest)
    (ascii : c.toNat < 128) : sliceFrom text (utf8Length before + 1) = sound (some rest) := by
  have start := utf8Length_concat before c
  rw [utf8Size_of_ascii ascii] at start
  rw [← start, sliceFrom_of_split (split.trans (List.append_cons before c rest))]

theorem byteAt?_end (text : Text) : byteAt? text (utf8Length text) = none :=
  List.getElem?_eq_none (Nat.le_of_eq (length_bytes text))

/-- A character of ASCII is the byte at an offset exactly if it is the character there. -/
theorem byteAt?_eq_some_iff {c : Char} (ascii : c.toNat < 128) (before after : Text) :
    byteAt? (before ++ after) (utf8Length before) = some c ↔ after.head? = some c := by
  cases after with
  | nil =>
    rw [List.append_nil, byteAt?_end]
    exact iff_of_false nofun nofun
  | cons d rest =>
    by_cases narrow : d.toNat < 128
    · rw [byteAt?_ascii narrow]
      rfl
    · obtain ⟨byte, found, high⟩ :=
        byteAt?_wide (Nat.le_of_not_lt narrow) before rest d.utf8Size_pos
      rw [Nat.add_zero] at found
      rw [found, List.head?_cons, Option.some.injEq, Option.some.injEq]
      constructor
      · rintro rfl
        exact absurd ascii (Nat.not_lt_of_le high)
      · rintro rfl
        exact absurd ascii narrow

/-- An induction along a text in which a backslash goes with the character behind it. -/
theorem escape_induction {motive : Text → Prop} (nil : motive []) (dangling : motive ['\\'])
    (escape : ∀ c rest, motive rest → motive ('\\' :: c :: rest))
    (char : ∀ c rest, c ≠ '\\' → motive rest → motive (c :: rest)) (text : Text) :
    motive text := by
  induction length : text.length using Nat.strong_induction_on generalizing text with
  | _ length inductionHypothesis =>
  subst length
  match text with
  | [] => exact nil
  | c :: rest =>
    by_cases backslash : c = '\\'
    · subst backslash
      match rest with
      | [] => exact dangling
      | d :: others =>
        have shorter : others.length < ('\\' :: d :: others).length :=
          Nat.lt_add_of_pos_right (by decide : 0 < 2)
        exact escape d others (inductionHypothesis _ shorter others rfl)
    · exact char c rest backslash (inductionHypothesis _ (Nat.lt_succ_self _) rest rfl)

end Text

namespace Scan

open Text

/-- What a reader finds, with the offset at which the rest of the text starts. -/
def located {α : Type} (text : Text) (found : Option (α × Text)) : Option (α × Nat) :=
  found.map fun (value, rest) => (value, offsetOf text rest)

/-- What has been found is at the offset behind a front of the text. -/
theorem sound_located {α : Type} {text before rest : Text} (value : α)
    (split : text = before ++ rest) :
    pure (value, utf8Length before) = sound (located text (some (value, rest))) := by
  simp only [located, Option.map_some, offsetOf_append split, pure_eq_sound]

/-- What a reader finds behind a front of a text ends at an offset behind that front. -/
theorem isOffsetFrom_of_located {α : Type} {text before suffix : Text} {found : Option (α × Text)}
    (split : text = before ++ suffix)
    (isSuffix : ∀ {value rest}, found = some (value, rest) → rest <:+ suffix) {value : α}
    {stop : Nat} (read : located text found = some (value, stop)) :
    IsOffsetFrom text (utf8Length before) stop := by
  obtain ⟨⟨_, rest⟩, rfl, same⟩ := Option.map_eq_some_iff.mp read
  obtain ⟨rfl, rfl⟩ := Prod.mk.inj same
  exact isOffsetFrom_offsetOf split (isSuffix rfl)

/-- Two scans after each other find what the two readers find, if the second one does so from
wherever the first one ends. -/
theorem located_bind {α β : Type} {text before suffix : Text} {found : Option (α × Text)}
    {next : α × Nat → Checked (β × Nat)} {more : α × Text → Option (β × Text)}
    (split : text = before ++ suffix)
    (isSuffix : ∀ {value rest}, found = some (value, rest) → rest <:+ suffix)
    (goesOn : ∀ value before rest, text = before ++ rest →
      next (value, utf8Length before) = sound (located text (more (value, rest)))) :
    sound (located text found) >>= next = sound (located text (found >>= more)) := by
  cases read : found with
  | none => rfl
  | some pair =>
    obtain ⟨value, rest⟩ := pair
    obtain ⟨piece, rfl⟩ := isSuffix read
    rw [← List.append_assoc] at split
    rw [← sound_located value split, Option.bind_eq_bind, Option.bind_some, pure_eq_sound,
      sound_some_bind, goesOn value _ rest split]

/-- What is read behind a piece, with the piece in front. -/
def ahead (piece : Text) (found : Option (Text × Text)) : Option (Text × Text) :=
  found.map fun (inner, rest) => (piece ++ inner, rest)

theorem ahead_keepFirst (piece : Text) (c : Char) (found : Option (Text × Text)) :
    ahead piece (keepFirst c found) = ahead (piece ++ [c]) found := by
  cases found with
  | none => rfl
  | some pair =>
    obtain ⟨inner, rest⟩ := pair
    simp only [keepFirst, ahead, Option.map_some, List.append_assoc, List.singleton_append]

theorem ne_of_wide {byte c : Char} (wide : 128 ≤ byte.toNat) (ascii : c.toNat < 128) : byte ≠ c :=
  fun same => absurd ascii (Nat.not_lt_of_le (same ▸ wide))

theorem append_cons_append (outside seen more : Text) (c : Char) :
    outside ++ c :: seen ++ more = outside ++ c :: (seen ++ more) := by
  rw [List.append_assoc, List.cons_append]

/-! ## Braced groups -/

/-- A step inside a braced group that starts at an offset. -/
def bracedStep (text : Text) (start depth index : Nat) (byte : Char) :
    Checked (Move Nat (Text × Nat)) :=
  if byte = '\\' then pure (.jump depth (index + 2))
  else if byte = '{' then pure (.jump (depth + 1) (index + 1))
  else if byte = '}' then do
    let depth ← decrement depth
    if depth = 0 then do
      let inner ← slice text (start + 1) index
      pure (.stop (inner, index + 1))
    else pure (.jump depth (index + 1))
  else pure (.jump depth (index + 1))

/-- Walk over the braced group at an offset. -/
def walkBraced (text : Text) (start : Nat) : Checked (Text × Nat) :=
  if byteAt? text start = some '{' then walk text (bracedStep text start) (fun _ => failure) 0 start
  else failure

theorem isCalm_bracedStep (text : Text) (start : Nat) : IsCalm (bracedStep text start) := by
  intro depth index byte wide
  rw [bracedStep, if_neg (ne_of_wide wide (by decide)), if_neg (ne_of_wide wide (by decide)),
    if_neg (ne_of_wide wide (by decide))]

/-- Behind its opening character a group is sliced up to the offset that is reached. -/
theorem slice_inside {text outside seen suffix : Text} {c : Char} (ascii : c.toNat < 128)
    (split : text = outside ++ c :: seen ++ suffix) :
    slice text (utf8Length outside + 1) (utf8Length (outside ++ c :: seen)) =
      sound (some seen) := by
  have start := utf8Length_concat outside c
  rw [utf8Size_of_ascii ascii] at start
  rw [List.append_cons] at split ⊢
  rw [← start, slice_of_split split]

/-- At a character that is no backslash a step goes as deep as the braces say, and slices what
has been seen where they end the group. -/
theorem bracedStep_eq {text outside before seen rest : Text} {c : Char}
    (split : text = before ++ c :: rest) (opened : before = outside ++ '{' :: seen)
    (unescaped : c ≠ '\\') (depth : Nat) :
    bracedStep text (utf8Length outside) (depth + 1) (utf8Length before) c =
      sound (some (match braceStep depth false c with
        | none => .stop (seen, utf8Length before + 1)
        | some next => .jump (next + 1) (utf8Length before + 1))) := by
  rw [bracedStep, if_neg unescaped, braceStep, if_neg Bool.false_ne_true]
  by_cases opening : c = '{'
  · rw [if_pos opening, if_pos opening]
    rfl
  rw [if_neg opening, if_neg opening]
  by_cases closing : c = '}'
  · rw [if_pos closing, if_pos closing, decrement_succ, sound_some_bind]
    cases depth with
    | zero =>
      rw [opened] at split ⊢
      rw [if_pos rfl, slice_inside (by decide) split]
      rfl
    | succ depth => rfl
  · rw [if_neg closing, if_neg closing]
    rfl

/-- Inside a group the walk finds what is read there, behind what it has already seen. -/
theorem walk_bracedStep (seen : Text) {text outside before suffix : Text} {depth : Nat}
    (split : text = before ++ suffix) (opened : before = outside ++ '{' :: seen) :
    walk text (bracedStep text (utf8Length outside)) (fun _ => failure) (depth + 1)
        (utf8Length before) =
      sound (located text (ahead seen (readBracedRest depth false suffix))) := by
  have calm := isCalm_bracedStep text (utf8Length outside)
  induction suffix using escape_induction generalizing before seen depth with
  | nil => exact walk_end split
  | dangling => exact walk_beyond split (by decide) rfl
  | escape c rest inductionHypothesis =>
    have further : text = before ++ ['\\', c] ++ rest := by rw [split, List.append_assoc]; rfl
    rw [walk_over calm split (by decide) rfl,
      inductionHypothesis _ further (by rw [opened, append_cons_append])]
    simp only [readBracedRest, if_true, ahead_keepFirst, List.append_assoc, List.singleton_append]
  | char c rest unescaped inductionHypothesis =>
    have further : text = before ++ [c] ++ rest := by rw [split, List.append_cons]
    have seenMore : before ++ [c] = outside ++ '{' :: (seen ++ [c]) := by
      rw [opened, append_cons_append]
    have steps := bracedStep_eq split opened unescaped depth
    rw [readBracedRest_cons, escapesNext_of_ne unescaped]
    cases next : braceStep depth false c with
    | none =>
      obtain ⟨-, rfl, -⟩ := braceStep_eq_none_iff.mp next
      rw [next] at steps
      rw [walk_stop (some (seen, _)) split (by decide) steps]
      simp only [ahead, located, Option.map_some, offsetOf_cons split (by decide), List.append_nil]
    | some deeper =>
      rw [next] at steps
      rw [walk_char calm split steps, inductionHypothesis _ further seenMore]
      simp only [ahead_keepFirst]

theorem walkBraced_eq {text before suffix : Text} (split : text = before ++ suffix) :
    walkBraced text (utf8Length before) = sound (located text (readBraced suffix)) := by
  have start := byteAt?_eq_some_iff (c := '{') (by decide) before suffix
  rw [← split] at start
  rw [walkBraced]
  simp only [start]
  match suffix with
  | [] => rfl
  | c :: rest =>
    by_cases opening : c = '{'
    · subst opening
      rw [if_pos List.head?_cons, walk_next split (by decide) rfl,
        walk_bracedStep [] (by rw [split, List.append_cons]) rfl, readBraced, if_pos rfl]
      cases readBracedRest 0 false rest <;> rfl
    · rw [if_neg (by simpa using opening), readBraced, if_neg opening]
      rfl

/-! ## Bracketed groups -/

/-- A step inside a bracketed group that starts at an offset. -/
def bracketedStep (text : Text) (start : Nat) :
    Nat × Nat → Nat → Char → Checked (Move (Nat × Nat) (Text × Nat))
  | (braces, brackets), index, byte =>
    if byte = '\\' then pure (.jump (braces, brackets) (index + 2))
    else if byte = '{' then pure (.jump (braces + 1, brackets) (index + 1))
    else if byte = '}' then pure (.jump (braces - 1, brackets) (index + 1))
    else if byte = '[' && braces = 0 then pure (.jump (braces, brackets + 1) (index + 1))
    else if byte = ']' && braces = 0 then do
      let brackets ← decrement brackets
      if brackets = 0 then do
        let inner ← slice text (start + 1) index
        pure (.stop (inner, index + 1))
      else pure (.jump (braces, brackets) (index + 1))
    else if byte = '\n' && braces = 0 then do
      let rest ← sliceFrom text (index + 1)
      if startsBlankLine rest then failure else pure (.jump (braces, brackets) (index + 1))
    else pure (.jump (braces, brackets) (index + 1))

/-- Walk over the bracketed group at an offset. -/
def walkBracketed (text : Text) (start : Nat) : Checked (Text × Nat) :=
  if byteAt? text start = some '[' then
    walk text (bracketedStep text start) (fun _ => failure) (0, 0) start
  else failure

theorem isCalm_bracketedStep (text : Text) (start : Nat) : IsCalm (bracketedStep text start) := by
  rintro ⟨braces, brackets⟩ index byte wide
  have other {c : Char} (ascii : c.toNat < 128) : byte ≠ c := ne_of_wide wide ascii
  simp [bracketedStep, other]

/-- At a character that is no backslash a step leaves open what the reader leaves open: it slices
what has been seen where the group ends, and finds nothing where the group breaks off. -/
theorem bracketedStep_eq {text outside before seen rest : Text} {c : Char}
    (split : text = before ++ c :: rest) (opened : before = outside ++ '[' :: seen)
    (unescaped : c ≠ '\\') (braces brackets : Nat) :
    bracketedStep text (utf8Length outside) (braces, brackets + 1) (utf8Length before) c =
      sound (match bracketStep braces brackets false c with
        | none => some (.stop (seen, utf8Length before + 1))
        | some (nextBraces, nextBrackets) =>
          if breaksOff braces false c rest then none
          else some (.jump (nextBraces, nextBrackets + 1) (utf8Length before + 1))) := by
  rw [bracketedStep, if_neg unescaped, bracketStep, if_neg Bool.false_ne_true]
  by_cases opening : c = '{'
  · rw [if_pos opening, if_pos opening, opening]
    rfl
  rw [if_neg opening, if_neg opening]
  by_cases closing : c = '}'
  · rw [if_pos closing, if_pos closing, closing]
    rfl
  rw [if_neg closing, if_neg closing]
  by_cases bracket : c = '[' ∧ braces = 0
  · rw [if_pos bracket, if_pos (by simpa using bracket), bracket.1]
    rfl
  rw [if_neg bracket, if_neg (by simpa using bracket)]
  by_cases ending : c = ']' ∧ braces = 0
  · rw [if_pos ending, if_pos (by simpa using ending), decrement_succ, sound_some_bind]
    cases brackets with
    | zero =>
      rw [opened] at split ⊢
      rw [if_pos rfl, slice_inside (by decide) split]
      rfl
    | succ brackets =>
      rw [ending.1]
      rfl
  rw [if_neg ending, if_neg (by simpa using ending)]
  by_cases breaks : c = '\n' ∧ braces = 0
  · obtain ⟨rfl, rfl⟩ := breaks
    rw [if_pos (by decide), sliceFrom_cons split (by decide), sound_some_bind]
    exact (apply_ite sound _ _ _).symm
  · have filled : breaksOff braces false c rest = false := by
      simp only [breaksOff, Bool.and_eq_false_iff, decide_eq_false_iff_not]
      tauto
    simp only [if_neg (by simpa using breaks : ¬ (decide (c = '\n') && decide (braces = 0)) = true),
      filled, Bool.false_eq_true, if_false, pure_eq_sound]

/-- Inside a group the walk finds what is read there, behind what it has already seen. -/
theorem walk_bracketedStep (seen : Text) {text outside before suffix : Text}
    {braces brackets : Nat}
    (split : text = before ++ suffix) (opened : before = outside ++ '[' :: seen) :
    walk text (bracketedStep text (utf8Length outside)) (fun _ => failure) (braces, brackets + 1)
        (utf8Length before) =
      sound (located text (ahead seen (readBracketedRest braces brackets false suffix))) := by
  have calm := isCalm_bracketedStep text (utf8Length outside)
  induction suffix using escape_induction generalizing before seen braces brackets with
  | nil => exact walk_end split
  | dangling => exact walk_beyond split (by decide) rfl
  | escape c rest inductionHypothesis =>
    have further : text = before ++ ['\\', c] ++ rest := by rw [split, List.append_assoc]; rfl
    rw [walk_over calm split (by decide) rfl,
      inductionHypothesis _ further (by rw [opened, append_cons_append])]
    simp only [readBracketedRest, if_true, ahead_keepFirst, List.append_assoc,
      List.singleton_append]
  | char c rest unescaped inductionHypothesis =>
    have further : text = before ++ [c] ++ rest := by rw [split, List.append_cons]
    have seenMore : before ++ [c] = outside ++ '[' :: (seen ++ [c]) := by
      rw [opened, append_cons_append]
    have steps := bracketedStep_eq split opened unescaped braces brackets
    rw [readBracketedRest_cons, escapesNext_of_ne unescaped]
    cases next : bracketStep braces brackets false c with
    | none =>
      obtain ⟨-, rfl, -⟩ := bracketStep_eq_none_iff.mp next
      rw [next] at steps
      rw [walk_stop (some (seen, _)) split (by decide) steps]
      simp only [ahead, located, Option.map_some, offsetOf_cons split (by decide), List.append_nil]
    | some _ =>
      rw [next] at steps
      simp only at steps ⊢
      split at steps
      next broken =>
        obtain rfl := eq_of_breaksOff broken
        rw [if_pos broken]
        exact walk_stop none split (by decide) steps
      next goesOn =>
        rw [if_neg goesOn, walk_char calm split steps, inductionHypothesis _ further seenMore,
          ahead_keepFirst]

theorem walkBracketed_eq {text before suffix : Text} (split : text = before ++ suffix) :
    walkBracketed text (utf8Length before) = sound (located text (readBracketed suffix)) := by
  have start := byteAt?_eq_some_iff (c := '[') (by decide) before suffix
  rw [← split] at start
  rw [walkBracketed]
  simp only [start]
  match suffix with
  | [] => rfl
  | c :: rest =>
    by_cases opening : c = '['
    · subst opening
      rw [if_pos List.head?_cons, walk_next split (by decide) rfl,
        walk_bracketedStep [] (by rw [split, List.append_cons]) rfl, readBracketed,
        if_pos rfl]
      cases readBracketedRest 0 0 false rest <;> rfl
    · rw [if_neg (by simpa using opening), readBracketed, if_neg opening]
      rfl

/-! ## Arguments -/

/-- Scan at most `limit` bracketed options. -/
def walkOptions (text : Text) : (limit index : Nat) → Checked (List Text × Nat)
  | 0, index => pure ([], index)
  | limit + 1, index => do
    let rest ← sliceFrom text (skipGapAt text index)
    if rest.head? = some '[' then do
      let (inner, stop) ← walkBracketed text (skipGapAt text index)
      let (others, stop) ← walkOptions text limit stop
      pure (inner :: others, stop)
    else pure ([], index)

/-- Scan exactly `count` braced arguments. -/
def walkRequired (text : Text) : (count index : Nat) → Checked (List Text × Nat)
  | 0, index => pure ([], index)
  | count + 1, index => do
    let (inner, stop) ← walkBraced text (skipGapAt text index)
    let (others, stop) ← walkRequired text count stop
    pure (inner :: others, stop)

/-- Whether a star stands at an offset. Where there is no starred form it is not looked for. -/
def walkStar (starrable : Bool) (text : Text) (index : Nat) : Checked Bool :=
  if starrable then do
    let rest ← sliceFrom text index
    pure (decide (rest.head? = some '*'))
  else pure false

/-- Scan the arguments at an offset. -/
def walkArguments (signature : Signature) (text : Text) (index : Nat) :
    Checked (Arguments × Nat) := do
  let starred ← walkStar signature.starrable text index
  let (options, stop) ← walkOptions text signature.maxOptions (if starred then index + 1 else index)
  let (required, stop) ← walkRequired text signature.required stop
  pure (⟨starred, options, required⟩, stop)

/-- A gap is skipped up to an offset behind which the text goes on. -/
theorem exists_skipGapAt {text before suffix : Text} (split : text = before ++ suffix) :
    ∃ front, text = front ++ skipGap suffix ∧
      skipGapAt text (utf8Length before) = utf8Length front := by
  refine ⟨before ++ suffix.takeWhile isGap, ?_, ?_⟩
  · rw [split, List.append_assoc, skipGap, List.takeWhile_append_dropWhile]
  · rw [skipGapAt, split, suffixAt?_append, utf8Length_append]

theorem walkRequired_eq {text before suffix : Text} (split : text = before ++ suffix)
    (count : Nat) :
    walkRequired text count (utf8Length before) =
      sound (located text (readRequired count suffix)) := by
  induction count generalizing before suffix with
  | zero => exact sound_located [] split
  | succ count inductionHypothesis =>
    obtain ⟨front, behindGap, reached⟩ := exists_skipGapAt split
    rw [walkRequired, reached, walkBraced_eq behindGap]
    refine located_bind behindGap (fun read => readBraced_suffix read)
      fun inner before rest split => ?_
    simp only [inductionHypothesis split]
    exact located_bind split (fun read => readRequired_suffix read) fun _ _ _ => sound_located _

theorem walkOptions_eq {text before suffix : Text} (split : text = before ++ suffix)
    (limit : Nat) :
    walkOptions text limit (utf8Length before) =
      sound (located text (readOptions limit suffix)) := by
  induction limit generalizing before suffix with
  | zero => exact sound_located [] split
  | succ limit inductionHypothesis =>
    obtain ⟨front, behindGap, reached⟩ := exists_skipGapAt split
    rw [walkOptions, reached, sliceFrom_of_split behindGap, sound_some_bind, readOptions]
    split
    · rw [walkBracketed_eq behindGap]
      refine located_bind behindGap (fun read => readBracketed_suffix read)
        fun inner before rest split => ?_
      simp only [inductionHypothesis split]
      exact located_bind split (fun read => readOptions_suffix read) fun _ _ _ => sound_located _
    · exact sound_located [] split

theorem walkStar_eq {text before suffix : Text} (split : text = before ++ suffix)
    (starrable : Bool) :
    walkStar starrable text (utf8Length before) =
      sound (some (starrable && decide (suffix.head? = some '*'))) := by
  rw [walkStar, sliceFrom_of_split split]
  cases starrable <;> rfl

/-- A star that was seen is passed over by one byte. -/
theorem exists_behindStar {text before suffix : Text} (split : text = before ++ suffix)
    (starred : Bool) (seen : starred = true → suffix.head? = some '*') :
    ∃ front, text = front ++ (if starred then suffix.tail else suffix) ∧
      (if starred then utf8Length before + 1 else utf8Length before) = utf8Length front := by
  cases starred with
  | false => exact ⟨before, split, rfl⟩
  | true =>
    refine ⟨before ++ ['*'], ?_, (utf8Length_concat before '*').symm⟩
    rw [split, List.append_assoc]
    exact congrArg (before ++ ·) (List.eq_cons_of_mem_head? (seen rfl))

theorem getD_dropFront?_star (suffix : Text) :
    (dropFront? ['*'] suffix).getD suffix =
      if decide (suffix.head? = some '*') then suffix.tail else suffix := by
  match suffix with
  | [] => rfl
  | c :: rest =>
    by_cases star : '*' = c
    · subst star
      rfl
    · simp [dropFront?, star, Ne.symm star]

theorem walkArguments_eq {text before suffix : Text} (split : text = before ++ suffix)
    (signature : Signature) :
    walkArguments signature text (utf8Length before) =
      sound (located text (readArguments signature suffix)) := by
  obtain ⟨front, behindStar, reached⟩ := exists_behindStar split
    (signature.starrable && decide (suffix.head? = some '*'))
    fun starred => of_decide_eq_true (Bool.and_eq_true_iff.mp starred).2
  rw [walkArguments, walkStar_eq split, sound_some_bind, reached, walkOptions_eq behindStar]
  refine located_bind behindStar (fun read => readOptions_suffix read)
    fun options before rest split => ?_
  simp only [walkRequired_eq split]
  exact located_bind split (fun read => readRequired_suffix read) fun _ _ _ => sound_located _

end Scan

end LatexMarkdown
