import LatexMarkdown.Preamble.Definition
import LatexMarkdown.Proofs.Characters
import LatexMarkdown.Proofs.CheckedSearch

/-!
# Checked scans for names

A definition and a grouped declaration start with the name of a command, which is counted in
bytes. Only letters of ASCII are counted, so the name ends between two characters.
-/

namespace LatexMarkdown

open Checked

namespace Text

/-- The number of bytes at the start of a text that have a property as characters. -/
def byteRun (holds : Char → Bool) (text : Text) : Nat :=
  ((bytes text).takeWhile holds).length

/-- If only characters of ASCII have the property, then the bytes are those of whole characters. -/
theorem byteRun_eq {holds : Char → Bool} (narrow : ∀ c, holds c = true → c.toNat < 128)
    (text : Text) : byteRun holds text = utf8Length (text.takeWhile holds) := by
  induction text with
  | nil => rfl
  | cons c rest inductionHypothesis =>
    rw [byteRun, bytes, List.flatMap_cons]
    by_cases ascii : c.toNat < 128
    · rw [bytesOf_ascii ascii, List.singleton_append, List.takeWhile_cons, List.takeWhile_cons]
      split
      · rw [List.length_cons, utf8Length, utf8Size_of_ascii ascii, Nat.add_comm]
        exact congrArg (1 + ·) inductionHypothesis
      · rfl
    · have fails : holds c = false :=
        Bool.eq_false_iff.mpr fun property => ascii (narrow c property)
      have filled : 0 < (bytesOf c).length := by
        rw [length_bytesOf]
        exact c.utf8Size_pos
      obtain ⟨byte, more, split⟩ := List.exists_cons_of_length_pos filled
      have first : byte ∈ bytesOf c := split ▸ List.mem_cons_self
      have wide := wide_of_mem_bytesOf (Nat.le_of_not_lt ascii) first
      have byteFails : holds byte = false :=
        Bool.eq_false_iff.mpr fun property => absurd (narrow byte property) (Nat.not_lt_of_le wide)
      rw [split, List.cons_append, List.takeWhile_cons, byteFails, List.takeWhile_cons, fails]
      rfl

end Text

namespace Preamble

open Scan Text

/-! ## The end of a definition -/

/-- Only where a scan ends. -/
def ended {α : Type} (scan : Checked (α × Nat)) : Checked Nat := do
  let (_, stop) ← scan
  pure stop

theorem ended_located {α : Type} (text : Text) (found : Option (α × Text)) :
    ended (sound (located text found)) = sound ((found.map Prod.snd).map (offsetOf text)) := by
  cases found <;> rfl

/-- Scan the name that a definition defines. A control symbol is one character of any width. -/
def walkDefinedName (text : Text) (index : Nat) : Checked Nat := do
  let suffix ← sliceFrom text index
  if suffix.head? = some '{' then ended (walkBraced text index)
  else if suffix.head? = some '\\' then do
    let name ← sliceFrom text (index + 1)
    let width := byteRun (fun c => c.isAlpha || c = '@') name
    pure (index + 1 + if width = 0 then utf8Length (name.take 1) else width)
  else failure

/-- Scan at most `limit` options, and stay where none is. -/
def walkSkipOptions (text : Text) : (limit index : Nat) → Checked Nat
  | 0, index => pure index
  | limit + 1, index => do
    match ← attempt (walkBracketed text (skipGapAt text index)) with
    | some (_, stop) => walkSkipOptions text limit stop
    | none => pure index

/-- Scan the parameter text and the body of a definition. -/
def walkParameterText (text : Text) (index : Nat) : Checked Nat := do
  let suffix ← sliceFrom text index
  let (front, _) ← sound (splitFirst? ['{'] suffix)
  if parameterLimit < utf8Length front then failure
  else do
    let parameters ← slice text index (index + utf8Length front)
    if parameters.any (· = '\n') then failure
    else ended (walkBraced text (index + utf8Length front))

/-- Scan for the end of the definition whose command ends at an offset. -/
def walkDefinition (shape : Shape) (text : Text) (index : Nat) : Checked Nat := do
  let starred ← walkStar true text index
  let stop ← walkDefinedName text (skipGapAt text (if starred then index + 1 else index))
  match shape with
  | .parameterText => walkParameterText text stop
  | .command => do ended (walkRequired text 1 (← walkSkipOptions text 2 stop))
  | .environment => do ended (walkRequired text 2 (← walkSkipOptions text 2 stop))

variable {text before suffix : Text}

theorem afterDefinedName?_suffix {rest : Text} (found : afterDefinedName? text = some rest) :
    rest <:+ text := by
  match text with
  | [] => cases found
  | c :: others =>
    rw [afterDefinedName?] at found
    split at found
    · obtain ⟨⟨inner, behind⟩, read, rfl⟩ := Option.map_eq_some_iff.mp found
      exact readBraced_suffix read
    split at found
    · refine List.IsSuffix.trans ?_ (List.suffix_cons c others)
      simp only at found
      split at found
      · obtain rfl := Option.some.inj found
        exact List.dropWhile_suffix _
      · obtain rfl := Option.some.inj found
        exact List.tail_suffix others
    · cases found

theorem walkDefinedName_eq (split : text = before ++ suffix) :
    walkDefinedName text (utf8Length before) =
      sound ((afterDefinedName? suffix).map (offsetOf text)) := by
  rw [walkDefinedName, sliceFrom_of_split split, sound_some_bind]
  match suffix with
  | [] => rfl
  | c :: rest =>
    simp only [List.head?_cons, Option.some.injEq, afterDefinedName?]
    by_cases opening : c = '{'
    · rw [if_pos opening, if_pos opening, walkBraced_eq split, ended_located]
    rw [if_neg opening, if_neg opening]
    by_cases backslash : c = '\\'
    · subst backslash
      have narrow (c : Char) (named : (c.isAlpha || decide (c = '@')) = true) : c.toNat < 128 := by
        rw [Bool.or_eq_true, decide_eq_true_eq] at named
        rcases named with letter | rfl
        · exact toNat_lt_of_isAlpha letter
        · decide
      have behind : text = before ++ ['\\'] ++ rest := by rw [split, List.append_cons]
      have start : utf8Length (before ++ ['\\']) = utf8Length before + 1 := utf8Length_concat _ _
      rw [if_pos rfl, if_pos rfl, sliceFrom_cons split (by decide), sound_some_bind,
        byteRun_eq narrow, ← start]
      have whole : rest.takeWhile (fun c => c.isAlpha || decide (c = '@')) ++
          rest.dropWhile (fun c => c.isAlpha || decide (c = '@')) = rest :=
        List.takeWhile_append_dropWhile
      have lengths := congrArg List.length whole
      rw [List.length_append] at lengths
      by_cases empty : rest.takeWhile (fun c => c.isAlpha || decide (c = '@')) = []
      · -- A control symbol has no letter, so the one character behind the backslash is its name.
        have symbol : text = before ++ ['\\'] ++ (rest.take 1 ++ rest.tail) := by
          rw [← List.drop_one, List.take_append_drop, behind]
        rw [empty, List.length_nil, Nat.zero_add] at lengths
        rw [empty, utf8Length, if_pos rfl, if_neg (Nat.not_lt_of_le (Nat.le_of_eq lengths.symm)),
          Option.map_some, offsetOf_passed symbol, pure_eq_sound]
      · have longer := List.length_pos_of_ne_nil empty
        rw [← whole] at behind
        rw [if_neg (Nat.ne_of_gt (utf8Length_pos empty)), if_pos (by omega), Option.map_some,
          offsetOf_passed behind, pure_eq_sound]
    · rw [if_neg backslash, if_neg backslash]
      rfl

/-- Options are skipped up to an offset behind which the text goes on. -/
theorem exists_walkSkipOptions (split : text = before ++ suffix) (limit : Nat) :
    ∃ front, text = front ++ skipOptions limit suffix ∧
      walkSkipOptions text limit (utf8Length before) = sound (some (utf8Length front)) := by
  induction limit generalizing before suffix with
  | zero => exact ⟨before, split, rfl⟩
  | succ limit inductionHypothesis =>
    obtain ⟨front, behindGap, reached⟩ := exists_skipGapAt split
    rw [walkSkipOptions, reached, walkBracketed_eq behindGap, attempt_sound, sound_some_bind,
      skipOptions]
    cases read : readBracketed (skipGap suffix) with
    | none => exact ⟨before, split, rfl⟩
    | some pair =>
      obtain ⟨inner, rest⟩ := pair
      obtain ⟨piece, passed⟩ := readBracketed_suffix read
      rw [← passed, ← List.append_assoc] at behindGap
      simp only [located, Option.map_some, offsetOf_append behindGap]
      exact inductionHypothesis behindGap

theorem walkParameterText_eq (split : text = before ++ suffix) :
    walkParameterText text (utf8Length before) = sound
      ((if parameterLimit < utf8Length (suffix.takeWhile (· ≠ '{')) ||
          (suffix.takeWhile (· ≠ '{')).any (· = '\n') then none
        else (readBraced (suffix.dropWhile (· ≠ '{'))).map Prod.snd).map (offsetOf text)) := by
  rw [walkParameterText, sliceFrom_of_split split, sound_some_bind]
  have whole : suffix.takeWhile (· ≠ '{') ++ suffix.dropWhile (· ≠ '{') = suffix :=
    List.takeWhile_append_dropWhile
  have passed : text = before ++ suffix.takeWhile (· ≠ '{') ++ suffix.dropWhile (· ≠ '{') := by
    rw [List.append_assoc, whole, split]
  have parameters := slice_of_split passed
  rw [utf8Length_append] at parameters
  rw [splitFirst?_character]
  cases body : suffix.dropWhile (· ≠ '{') with
  | nil =>
    rw [readBraced, Option.map_none, ite_self]
    rfl
  | cons c rest =>
    rw [body] at passed
    have group := walkBraced_eq passed
    rw [utf8Length_append] at group
    simp only [sound_some_bind, parameters, group, ended_located, Bool.or_eq_true,
      decide_eq_true_eq]
    by_cases long : parameterLimit < utf8Length (suffix.takeWhile (· ≠ '{'))
    · rw [if_pos long, if_pos (.inl long)]
      rfl
    by_cases broken : (suffix.takeWhile (· ≠ '{')).any (· = '\n') = true
    · rw [if_neg long, if_pos broken, if_pos (.inr broken)]
      rfl
    · rw [if_neg long, if_neg broken, if_neg (not_or_intro long broken)]

theorem walkDefinition_eq (split : text = before ++ suffix) (shape : Shape) :
    walkDefinition shape text (utf8Length before) =
      sound ((afterDefinition? shape suffix).map (offsetOf text)) := by
  obtain ⟨front, behindStar, star⟩ := exists_behindStar split
    (decide (suffix.head? = some '*')) of_decide_eq_true
  obtain ⟨named, behindGap, gap⟩ := exists_skipGapAt behindStar
  rw [walkDefinition, walkStar_eq split, sound_some_bind, Bool.true_and, star, gap,
    walkDefinedName_eq behindGap, afterDefinition?, getD_dropFront?_star]
  simp only [Option.bind_eq_bind]
  cases found : afterDefinedName? (skipGap
      (if decide (suffix.head? = some '*') then suffix.tail else suffix)) with
  | none => rfl
  | some after =>
    obtain ⟨piece, passed⟩ := afterDefinedName?_suffix found
    rw [← passed, ← List.append_assoc] at behindGap
    simp only [Option.map_some, offsetOf_append behindGap, sound_some_bind, Option.bind_some]
    cases shape with
    | parameterText => exact walkParameterText_eq behindGap
    | command =>
      obtain ⟨last, behindOptions, skipped⟩ := exists_walkSkipOptions behindGap 2
      simp only [skipped, sound_some_bind, walkRequired_eq behindOptions, ended_located]
    | environment =>
      obtain ⟨last, behindOptions, skipped⟩ := exists_walkSkipOptions behindGap 2
      simp only [skipped, sound_some_bind, walkRequired_eq behindOptions, ended_located]

end Preamble

end LatexMarkdown
