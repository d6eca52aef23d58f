import LatexMarkdown.Proofs.Groups

/-!
# What readers leave

A reader of a span splits a text into what it reads, the closing of the span and what
follows. Every reader leaves a suffix of what it was given, and the readers of whole
spans have read at least one character. An edit up to what a reader leaves
therefore covers exactly what was read.
-/

namespace LatexMarkdown.Scan

/-- A suffix of the rest of a text is a suffix of the text. -/
theorem suffix_cons_of_suffix {c : Char} {rest text : Text} (suffix : rest <:+ text) :
    rest <:+ c :: text :=
  suffix.trans (List.suffix_cons c text)

/-- Skipping a gap leaves a suffix. -/
theorem skipGap_suffix (text : Text) : Text.skipGap text <:+ text :=
  List.dropWhile_suffix _

/-- A brace is no gap. -/
theorem skipGap_brace (rest : Text) : Text.skipGap ('{' :: rest) = '{' :: rest :=
  List.dropWhile_cons_of_neg (by decide)

/-- A single braced argument is read, without options. -/
theorem readArguments_of_braced {argument rest : Text}
    (braced : readBraced ('{' :: (argument ++ '}' :: rest)) = some (argument, rest))
    (starrable : Bool) (maxOptions : Nat) :
    readArguments ⟨starrable, maxOptions, 1⟩ ('{' :: (argument ++ '}' :: rest)) =
      some (⟨false, [], [argument]⟩, rest) := by
  have options : readOptions maxOptions ('{' :: (argument ++ '}' :: rest)) =
      some ([], '{' :: (argument ++ '}' :: rest)) := by
    cases maxOptions <;> simp [readOptions, skipGap_brace]
  simp [readArguments, readRequired, skipGap_brace, options, braced]

/-! ## Arguments -/

/-- Groups stand one after another, each behind a gap. -/
inductive SpellsGroups (opening closing : Char) : List Text → Text → Prop
  | none : SpellsGroups opening closing [] []
  | cons {gap inner behind : Text} {others : List Text} (gapped : Text.IsGap gap)
      (more : SpellsGroups opening closing others behind) :
      SpellsGroups opening closing (inner :: others)
        (gap ++ (opening :: (inner ++ [closing]) ++ behind))

/-- A text is a gap and what is left when the gap is skipped. -/
theorem exists_gap (text : Text) : ∃ gap, Text.IsGap gap ∧ text = gap ++ Text.skipGap text :=
  ⟨text.takeWhile Text.isGap, fun _ => List.mem_takeWhile_imp,
    List.takeWhile_append_dropWhile.symm⟩

/-- An option is read where a bracket stands behind the gap, and the other ones behind it. -/
theorem readOptions_succ_iff {limit : Nat} {text rest : Text} {options : List Text} :
    readOptions (limit + 1) text = some (options, rest) ↔
      ((Text.skipGap text).head? = some '[' ∧ ∃ inner middle others,
        readBracketed (Text.skipGap text) = some (inner, middle) ∧
          readOptions limit middle = some (others, rest) ∧ options = inner :: others) ∨
      ((Text.skipGap text).head? ≠ some '[' ∧ options = [] ∧ rest = text) := by
  rw [readOptions]
  split
  next bracket =>
    simp only [bracket, ne_eq, not_true_eq_false, false_and, or_false, true_and]
    simp only [Option.bind_eq_bind, Option.bind_eq_some_iff, Option.some.injEq, Prod.mk.injEq,
      Prod.exists]
    constructor
    · rintro ⟨inner, middle, read, others, last, further, rfl, rfl⟩
      exact ⟨inner, middle, others, read, further, rfl⟩
    · rintro ⟨inner, middle, others, read, further, rfl⟩
      exact ⟨inner, middle, read, others, rest, further, rfl, rfl⟩
  next other =>
    simp [other, eq_comm]

/-- A braced argument is read behind a gap, and the other ones behind it. -/
theorem readRequired_succ_iff {count : Nat} {text rest : Text} {required : List Text} :
    readRequired (count + 1) text = some (required, rest) ↔ ∃ inner middle others,
      readBraced (Text.skipGap text) = some (inner, middle) ∧
        readRequired count middle = some (others, rest) ∧ required = inner :: others := by
  simp only [readRequired, Option.bind_eq_bind, Option.bind_eq_some_iff, Option.some.injEq,
    Prod.mk.injEq, Prod.exists]
  constructor
  · rintro ⟨inner, middle, read, others, last, further, rfl, rfl⟩
    exact ⟨inner, middle, others, read, further, rfl⟩
  · rintro ⟨inner, middle, others, read, further, rfl⟩
    exact ⟨inner, middle, read, others, rest, further, rfl, rfl⟩

/-- Arguments are a star, if one may stand and stands there, then options, then the braced
arguments. -/
theorem readArguments_iff {signature : Signature} {arguments : Arguments} {text rest : Text} :
    readArguments signature text = some (arguments, rest) ↔
      arguments.starred = (signature.starrable && decide (text.head? = some '*')) ∧ ∃ middle,
        readOptions signature.maxOptions (if arguments.starred then text.tail else text) =
          some (arguments.options, middle) ∧
        readRequired signature.required middle = some (arguments.required, rest) := by
  obtain ⟨starred, options, required⟩ := arguments
  simp only [readArguments, Option.bind_eq_bind, Option.bind_eq_some_iff, Option.some.injEq,
    Prod.mk.injEq, Prod.exists, Arguments.mk.injEq]
  constructor
  · rintro ⟨options, middle, optionsRead, required, last, requiredRead, ⟨rfl, rfl, rfl⟩, rfl⟩
    exact ⟨rfl, middle, optionsRead, requiredRead⟩
  · rintro ⟨rfl, middle, optionsRead, requiredRead⟩
    exact ⟨options, middle, optionsRead, required, rest, requiredRead, ⟨rfl, rfl, rfl⟩, rfl⟩

theorem readOptions_spells {limit : Nat} {text rest : Text} {options : List Text}
    (read : readOptions limit text = some (options, rest)) :
    ∃ piece, SpellsGroups '[' ']' options piece ∧ text = piece ++ rest := by
  induction limit generalizing text options with
  | zero =>
    obtain ⟨rfl, rfl⟩ := Prod.mk.inj (Option.some.inj read)
    exact ⟨[], .none, rfl⟩
  | succ limit inductionHypothesis =>
    rcases readOptions_succ_iff.mp read with
      ⟨-, inner, middle, others, bracketed, further, rfl⟩ | ⟨-, rfl, rfl⟩
    · obtain ⟨behind, more, split⟩ := inductionHypothesis further
      obtain ⟨gap, gapped, whole⟩ := exists_gap text
      refine ⟨_, .cons gapped more, ?_⟩
      rw [whole, readBracketed_eq_append bracketed, split]
      simp
    · exact ⟨[], .none, rfl⟩

theorem readRequired_spells {count : Nat} {text rest : Text} {required : List Text}
    (read : readRequired count text = some (required, rest)) :
    ∃ piece, SpellsGroups '{' '}' required piece ∧ text = piece ++ rest := by
  induction count generalizing text required with
  | zero =>
    obtain ⟨rfl, rfl⟩ := Prod.mk.inj (Option.some.inj read)
    exact ⟨[], .none, rfl⟩
  | succ count inductionHypothesis =>
    obtain ⟨inner, middle, others, braced, further, rfl⟩ := readRequired_succ_iff.mp read
    obtain ⟨behind, more, split⟩ := inductionHypothesis further
    obtain ⟨gap, gapped, whole⟩ := exists_gap text
    refine ⟨_, .cons gapped more, ?_⟩
    rw [whole, readBraced_eq_append braced, split]
    simp

/-- Arguments split a text into their star, their options, their braced arguments and the
rest. -/
theorem readArguments_split {signature : Signature} {arguments : Arguments} {text rest : Text}
    (read : readArguments signature text = some (arguments, rest)) :
    ∃ options required, SpellsGroups '[' ']' arguments.options options ∧
      SpellsGroups '{' '}' arguments.required required ∧
        text = (if arguments.starred then ['*'] else []) ++ (options ++ required) ++ rest := by
  obtain ⟨star, middle, optionsRead, requiredRead⟩ := readArguments_iff.mp read
  obtain ⟨options, spellsOptions, behindStar⟩ := readOptions_spells optionsRead
  obtain ⟨required, spellsRequired, behindOptions⟩ := readRequired_spells requiredRead
  refine ⟨options, required, spellsOptions, spellsRequired, ?_⟩
  rw [List.append_assoc, List.append_assoc, ← behindOptions, ← behindStar]
  split
  next starred =>
    rw [star, Bool.and_eq_true, decide_eq_true_eq] at starred
    obtain ⟨others, rfl⟩ := List.head?_eq_some_iff.mp starred.2
    rfl
  · rfl

/-- Options leave a suffix. -/
theorem readOptions_suffix {limit : Nat} {text rest : Text} {options : List Text}
    (read : readOptions limit text = some (options, rest)) : rest <:+ text := by
  obtain ⟨piece, -, rfl⟩ := readOptions_spells read
  exact List.suffix_append piece rest

/-- Braced arguments leave a suffix. -/
theorem readRequired_suffix {count : Nat} {text rest : Text} {required : List Text}
    (read : readRequired count text = some (required, rest)) : rest <:+ text := by
  obtain ⟨piece, -, rfl⟩ := readRequired_spells read
  exact List.suffix_append piece rest

/-- The arguments of a command or an environment leave a suffix. -/
theorem readArguments_suffix {signature : Signature} {text rest : Text} {arguments : Arguments}
    (read : readArguments signature text = some (arguments, rest)) : rest <:+ text := by
  obtain ⟨options, required, -, -, rfl⟩ := readArguments_split read
  exact List.suffix_append _ rest

/-! ## Environments, spans and formulas -/

/-- The text up to a closing marker is the body, then the marker, then the
rest. -/
theorem splitAtClosing_eq_append {opening closing : Text} {depth covered : Nat}
    {text body rest : Text}
    (read : splitAtClosing opening closing depth covered text = some (body, rest)) :
    text = body ++ closing ++ rest := by
  rw [List.append_assoc]
  induction text generalizing depth covered body rest with
  | nil => simp [splitAtClosing] at read
  | cons c after inductionHypothesis =>
    cases covered with
    | succ covered => exact keepFirst_eq_append read fun _ => inductionHypothesis
    | zero =>
      simp only [splitAtClosing] at read
      split at read
      next behind found =>
        cases depth with
        | zero =>
          simp only [Option.some.injEq, Prod.mk.injEq] at read
          rw [Text.dropFront?_eq_some_iff.mp found, ← read.1, ← read.2]
          rfl
        | succ outer => exact keepFirst_eq_append read fun _ => inductionHypothesis
      next =>
        split at read
        · exact keepFirst_eq_append read fun _ => inductionHypothesis
        · exact keepFirst_eq_append read fun _ => inductionHypothesis

/-- The body of an environment and its closing marker leave a suffix. -/
theorem splitAtClosing_suffix {opening closing : Text} {depth covered : Nat}
    {text body rest : Text}
    (read : splitAtClosing opening closing depth covered text = some (body, rest)) :
    rest <:+ text :=
  splitAtClosing_eq_append read ▸ List.suffix_append (body ++ closing) rest

theorem beginMarker_eq (name : Text) :
    beginMarker name = "\\begin".toList ++ '{' :: name ++ ['}'] :=
  rfl

theorem endMarker_eq (name : Text) : endMarker name = "\\end".toList ++ '{' :: name ++ ['}'] :=
  rfl

/-- An opening marker is not empty. -/
theorem beginMarker_ne_nil (name : Text) : beginMarker name ≠ [] :=
  List.append_ne_nil_of_right_ne_nil _ (List.cons_ne_nil _ _)

/-- A closing marker is not empty. -/
theorem endMarker_ne_nil (name : Text) : endMarker name ≠ [] :=
  List.append_ne_nil_of_right_ne_nil _ (List.cons_ne_nil _ _)

section Environment

variable {name : Text} {maxOptions required : Nat} {text rest : Text} {environment : Environment}

/-- No environment is read at an escaped position. -/
theorem readEnvironment_escaped {cursor : Cursor} (escaped : cursor.escaped = true) (text : Text) :
    readEnvironment name maxOptions required cursor text = none := by
  rw [readEnvironment, if_pos escaped]

/-- No environment is read where its opening marker does not stand. -/
theorem readEnvironment_unopened (cursor : Cursor) (unopened : ¬ beginMarker name <+: text) :
    readEnvironment name maxOptions required cursor text = none := by
  rw [readEnvironment, Text.dropFront?_eq_none_iff.mpr unopened]
  exact ite_self none

/-- An environment is read behind its opening marker: first its arguments, then its body. It
starts where the cursor is and stops where the rest starts. -/
theorem readEnvironment_eq_some_iff {cursor : Cursor} :
    readEnvironment name maxOptions required cursor text = some (environment, rest) ↔
      cursor.escaped = false ∧ ∃ after inside, text = beginMarker name ++ after ∧
        readArguments ⟨false, maxOptions, required⟩ after =
          some (environment.arguments, inside) ∧
        readBody name inside = some (environment.body, rest) ∧
        environment.start = cursor.offset ∧
        environment.stop = cursor.offset + (Text.utf8Length text - Text.utf8Length rest) := by
  obtain ⟨start, stop, arguments, body⟩ := environment
  rw [readEnvironment]
  cases cursor.escaped with
  | true => simp
  | false =>
    simp only [Bool.false_eq_true, if_false, true_and, Option.bind_eq_bind,
      Option.bind_eq_some_iff, Option.some.injEq, Prod.mk.injEq, Prod.exists,
      Environment.mk.injEq, Text.dropFront?_eq_some_iff]
    constructor
    · rintro ⟨after, opened, arguments, inside, argumentsRead, body, last, bodyRead,
        ⟨rfl, rfl, rfl, rfl⟩, rfl⟩
      exact ⟨after, inside, opened, argumentsRead, bodyRead, rfl, rfl⟩
    · rintro ⟨after, inside, opened, argumentsRead, bodyRead, rfl, rfl⟩
      exact ⟨after, opened, arguments, inside, argumentsRead, body, rest, bodyRead,
        ⟨rfl, rfl, rfl, rfl⟩, rfl⟩

/-- A complete environment has been read past its opening marker. -/
theorem readEnvironment_remains {cursor : Cursor}
    (read : readEnvironment name maxOptions required cursor text = some (environment, rest)) :
    Remains rest text := by
  obtain ⟨-, after, inside, rfl, argumentsRead, bodyRead, -⟩ := readEnvironment_eq_some_iff.mp read
  exact .of_append (beginMarker_ne_nil name)
    ((splitAtClosing_suffix bodyRead).trans (readArguments_suffix argumentsRead))

end Environment

/-- The text up to an unescaped pattern is the first part, then the pattern,
then the second part. -/
theorem splitUnescaped?_eq_append {pattern : Text} {escaped : Bool} {text body rest : Text}
    (read : splitUnescaped? pattern escaped text = some (body, rest)) :
    text = body ++ pattern ++ rest := by
  induction text generalizing escaped body rest with
  | nil =>
    simp only [splitUnescaped?] at read
    split at read
    next empty =>
      simp only [Bool.and_eq_true, List.isEmpty_iff] at empty
      simp only [Option.some.injEq, Prod.mk.injEq] at read
      simp [← read.1, ← read.2, empty.1]
    · simp at read
  | cons c others inductionHypothesis =>
    rw [splitUnescaped?] at read
    split at read
    next after found =>
      simp only [Option.some.injEq, Prod.mk.injEq] at read
      split at found
      · simp at found
      · rw [Text.dropFront?_eq_some_iff.mp found, ← read.1, ← read.2]
        simp
    next =>
      obtain ⟨inner, split, rfl⟩ := keepFirst_eq_some read
      rw [inductionHypothesis split]
      simp

/-- Inline math is its body, then a dollar, then the rest. -/
theorem readDollars_eq_append {escaped : Bool} {text body rest : Text}
    (read : readDollars escaped text = some (body, rest)) : text = body ++ '$' :: rest := by
  induction text generalizing escaped body rest with
  | nil => cases escaped <;> simp [readDollars] at read
  | cons c after inductionHypothesis =>
    cases escaped with
    | true => exact keepFirst_eq_append read fun _ => inductionHypothesis
    | false =>
      simp only [readDollars] at read
      split at read
      · exact keepFirst_eq_append read fun _ => inductionHypothesis
      split at read
      next dollar =>
        simp only [Option.some.injEq, Prod.mk.injEq] at read
        simp [dollar, ← read.1, ← read.2]
      split at read
      · simp at read
      · exact keepFirst_eq_append read fun _ => inductionHypothesis

/-- A span between delimiters that are not both empty has been read past its
closing delimiter. -/
theorem delimited_remains {cursor : Cursor} {opening closing text inside body rest : Text}
    {escaped : Bool} (filled : ¬ (opening = [] ∧ closing = []))
    (opened : (if cursor.escaped then none else Text.dropFront? opening text) = some inside)
    (read : splitUnescaped? closing escaped inside = some (body, rest)) : Remains rest text := by
  split at opened
  · simp at opened
  · rw [Text.dropFront?_eq_some_iff.mp opened, splitUnescaped?_eq_append read]
    refine ⟨opening ++ (body ++ closing), fun empty => filled ?_, by simp⟩
    simp only [List.append_eq_nil_iff] at empty
    exact ⟨empty.1, empty.2.2⟩

/-- Inline math has been read past its closing dollar. -/
theorem dollars_remains {c : Char} {escaped : Bool} {inside body rest : Text}
    (read : readDollars escaped inside = some (body, rest)) : Remains rest (c :: inside) := by
  rw [readDollars_eq_append read]
  exact ⟨c :: (body ++ ['$']), by simp, by simp⟩

end LatexMarkdown.Scan
