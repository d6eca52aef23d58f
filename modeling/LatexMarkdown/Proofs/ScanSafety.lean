import LatexMarkdown.Proofs.CheckedEditing
import LatexMarkdown.Proofs.CheckedPieces

/-!
# Safety of the scanners

What a scanner finds from an offset on lies between two characters, not before that offset and
not past the end of the text. The walk over bytes for it slices the text only between
characters, counts nothing below zero, and finds the same.
-/

namespace LatexMarkdown

open Checked Text

/-! ## Offsets that are found -/

namespace Text

theorem IsOffsetFrom.of_le {text : Text} {earlier start offset : Nat} (ordered : earlier ≤ start)
    (fits : IsOffsetFrom text start offset) : IsOffsetFrom text earlier offset :=
  ⟨fits.1, Nat.le_trans ordered fits.2.1, fits.2.2⟩

end Text

namespace Preamble

theorem skipOptions_suffix (limit : Nat) (text : Text) : skipOptions limit text <:+ text := by
  induction limit generalizing text with
  | zero => exact List.suffix_refl text
  | succ limit inductionHypothesis =>
    rw [skipOptions]
    split
    next inner rest read =>
      exact (inductionHypothesis rest).trans
        ((Scan.readBracketed_suffix read).trans (Scan.skipGap_suffix text))
    · exact List.suffix_refl text

theorem afterDefinition?_suffix {shape : Shape} {text rest : Text}
    (found : afterDefinition? shape text = some rest) : rest <:+ text := by
  obtain ⟨after, named, found⟩ := Option.bind_eq_some_iff.mp found
  have passed : after <:+ text :=
    calc after <:+ skipGap ((dropFront? ['*'] text).getD text) := afterDefinedName?_suffix named
      _ <:+ (dropFront? ['*'] text).getD text := Scan.skipGap_suffix _
      _ <:+ text := Scan.getD_dropFront?_suffix ['*'] text
  refine List.IsSuffix.trans ?_ passed
  have bodies {count : Nat}
      (read : (Scan.readRequired count (skipOptions 2 after)).map Prod.snd = some rest) :
      rest <:+ after := by
    obtain ⟨⟨_, behind⟩, required, rfl⟩ := Option.map_eq_some_iff.mp read
    exact (Scan.readRequired_suffix required).trans (skipOptions_suffix 2 after)
  cases shape with
  | command => exact bodies found
  | environment => exact bodies found
  | parameterText =>
    simp only at found
    split at found
    · cases found
    · obtain ⟨⟨_, behind⟩, read, rfl⟩ := Option.map_eq_some_iff.mp found
      exact (Scan.readBraced_suffix read).trans (List.dropWhile_suffix _)

/-- The offset just past the definition whose command ends at an offset. -/
def definitionEndAt (shape : Shape) (text : Text) (start : Nat) : Option Nat := do
  let suffix ← suffixAt? text start
  (afterDefinition? shape suffix).map (offsetOf text)

end Preamble

namespace Scan

/-- What is read at an offset, with the offset just past it. -/
def readFrom {α : Type} (read : Text → Option (α × Text)) (text : Text) (start : Nat) :
    Option (α × Nat) := do
  let suffix ← suffixAt? text start
  located text (read suffix)

section Read

variable {α : Type} {read : Text → Option (α × Text)} {text before suffix : Text}

theorem readFrom_append (split : text = before ++ suffix) :
    readFrom read text (utf8Length before) = located text (read suffix) := by
  rw [readFrom, split, suffixAt?_append]
  rfl

theorem isOffsetFrom_of_readFrom
    (isSuffix : ∀ {text value rest}, read text = some (value, rest) → rest <:+ text)
    {start stop : Nat} {value : α} (found : readFrom read text start = some (value, stop)) :
    IsOffsetFrom text start stop := by
  obtain ⟨suffix, behind, read⟩ := Option.bind_eq_some_iff.mp found
  obtain ⟨before, split, rfl⟩ := suffixAt?_eq_some_iff.mp behind
  exact isOffsetFrom_of_located split isSuffix read

/-- A group is read at an offset as any other thing. -/
theorem readAt_eq_readFrom {read : Text → Option (Text × Text)}
    (isSuffix : ∀ {text inner rest}, read text = some (inner, rest) → rest <:+ text) (text : Text)
    (start : Nat) : readAt read text start = readFrom read text start := by
  rw [readAt, readFrom]
  cases behind : suffixAt? text start with
  | none => rfl
  | some suffix =>
    obtain ⟨before, split, rfl⟩ := suffixAt?_eq_some_iff.mp behind
    cases found : read suffix with
    | none => simp [found, located]
    | some pair =>
      obtain ⟨inner, rest⟩ := pair
      obtain ⟨piece, rfl⟩ := isSuffix found
      simp [found, located, offsetOf_passed split, utf8Length_append]

end Read

section Search

variable {name text before suffix : Text} {cursor : Cursor}

theorem isOffsetFrom_of_findCommandFrom (split : text = before ++ suffix)
    (here : cursor.offset = utf8Length before) {position : Nat}
    (found : findCommandFrom name cursor suffix = some position) :
    IsOffsetFrom text (utf8Length before) position := by
  induction suffix generalizing before cursor with
  | nil => cases found
  | cons c rest inductionHypothesis =>
    have further : text = before ++ [c] ++ rest := by rw [split, List.append_cons]
    have reached := utf8Length_concat before c
    rw [findCommandFrom] at found
    split at found
    · obtain rfl := Option.some.inj found
      rw [here]
      exact isOffsetFrom_append split (Nat.le_refl _)
    · refine (inductionHypothesis further ?_ found).of_le (utf8Length_le_append before [c])
      rw [reached, Cursor.advance, here]

theorem isOffsetFrom_of_findClosingAt {start position stop : Nat}
    (found : findClosingAt name text start = some (position, stop)) :
    IsOffsetFrom text start position ∧ IsOffsetFrom text position stop := by
  obtain ⟨suffix, behind, closes⟩ := Option.bind_eq_some_iff.mp found
  obtain ⟨before, split, rfl⟩ := suffixAt?_eq_some_iff.mp behind
  obtain ⟨⟨body, rest⟩, closed, same⟩ := Option.bind_eq_some_iff.mp closes
  obtain ⟨rfl, rfl⟩ := Prod.mk.inj (Option.some.inj same)
  rw [splitAtClosing_eq_append closed, ← List.append_assoc, ← List.append_assoc] at split
  have marker : text = before ++ body ++ (endMarker name ++ rest) := by
    rw [split, List.append_assoc]
  rw [← utf8Length_append, ← utf8Length_append]
  constructor
  · exact isOffsetFrom_append marker (utf8Length_le_append before body)
  · exact isOffsetFrom_append split (utf8Length_le_append (before ++ body) (endMarker name))

theorem isOffsetFrom_of_findEnvironmentFrom {maxOptions required covered : Nat}
    (split : text = before ++ suffix) (here : cursor.offset = utf8Length before)
    {environment : Environment}
    (found : findEnvironmentFrom name maxOptions required cursor covered suffix =
      some environment) :
    IsOffsetFrom text (utf8Length before) environment.start ∧
      IsOffsetFrom text environment.start environment.stop := by
  induction suffix generalizing before cursor covered with
  | nil => cases found
  | cons c rest inductionHypothesis =>
    have further : text = before ++ [c] ++ rest := by rw [split, List.append_cons]
    have reached := utf8Length_concat before c
    have behind {covered : Nat} (later : findEnvironmentFrom name maxOptions required
        (cursor.advance c) covered rest = some environment) :
        IsOffsetFrom text (utf8Length before) environment.start ∧
          IsOffsetFrom text environment.start environment.stop := by
      obtain ⟨first, second⟩ := inductionHypothesis further
        (by rw [reached, Cursor.advance, here]) later
      exact ⟨first.of_le (utf8Length_le_append before [c]), second⟩
    cases covered with
    | succ covered => exact behind found
    | zero =>
    rw [findEnvironmentFrom] at found
    split at found
    next _ after read =>
      obtain rfl := Option.some.inj found
      obtain ⟨matched, spelled, -, -, -, start, stop⟩ := readEnvironment_iff.mp read
      rw [spelled, ← List.append_assoc] at split
      rw [stop, start, here, ← utf8Length_append]
      exact ⟨isOffsetFrom_append (by rw [split, List.append_assoc]) (Nat.le_refl _),
        isOffsetFrom_append split (utf8Length_le_append before matched)⟩
    · exact behind found

end Search

/-! ## Safety -/

/-- Every offset that is found from a start on lies between two characters, not before the start
and not past the end. -/
structure OffsetsFit (text : Text) (start : Nat) : Prop where
  braced : ∀ {inner stop}, readAt readBraced text start = some (inner, stop) →
    IsOffsetFrom text start stop
  bracketed : ∀ {inner stop}, readAt readBracketed text start = some (inner, stop) →
    IsOffsetFrom text start stop
  arguments : ∀ {signature arguments stop},
    readFrom (readArguments signature) text start = some (arguments, stop) →
      IsOffsetFrom text start stop
  command : ∀ {name position}, findCommandAt name text start = some position →
    IsOffsetFrom text start position
  closing : ∀ {name position stop}, findClosingAt name text start = some (position, stop) →
    IsOffsetFrom text start position ∧ IsOffsetFrom text position stop
  environment : ∀ {name maxOptions required environment},
    findEnvironmentAt name maxOptions required text start = some environment →
      IsOffsetFrom text start environment.start ∧
        IsOffsetFrom text environment.start environment.stop
  definition : ∀ {shape stop}, Preamble.definitionEndAt shape text start = some stop →
    IsOffsetFrom text start stop

/-- The walks from a start on slice only between characters, count nothing below zero, and find
what is read there, whatever the names are. -/
structure WalksFit (text : Text) (start : Nat) : Prop where
  braced : walkBraced text start = sound (readAt readBraced text start)
  bracketed : walkBracketed text start = sound (readAt readBracketed text start)
  arguments : ∀ signature, walkArguments signature text start =
    sound (readFrom (readArguments signature) text start)
  command : ∀ name, walkCommand name text start = sound (findCommandAt name text start)
  closing : ∀ name, walkClosing name text start = sound (findClosingAt name text start)
  environment : ∀ name maxOptions required,
    walkEnvironment name maxOptions required text start =
      sound (findEnvironmentAt name maxOptions required text start)
  definition : ∀ shape, Preamble.walkDefinition shape text start =
    sound (Preamble.definitionEndAt shape text start)

/-- The walks over a whole text slice only between characters as well, and write what the edits
write. -/
structure EditsFit (text : Text) : Prop where
  declarations : ∀ {σ : Type} (respond : Answer σ Declaration) (state : σ),
    walkDeclarations respond state text = sound (some (editDeclaration respond state text))
  dollars : ∀ {σ : Type} (respond : σ → Text → σ × Text) (state : σ),
    walkDollars respond state text = sound (some (editDollars respond state text))
  comment : Code.walkBeforeComment text = sound (some (Code.beforeComment 0 text))
  rows : Table.walkRows text = sound (some (Table.splitRows text))
  cells : Table.walkCells text = sound (some (Table.splitCells text))

section Safety

variable {text before suffix : Text}

theorem offsetsFit (split : text = before ++ suffix) : OffsetsFit text (utf8Length before) where
  braced found := isOffsetFrom_of_readFrom readBraced_suffix
    ((readAt_eq_readFrom readBraced_suffix _ _).symm.trans found)
  bracketed found := isOffsetFrom_of_readFrom readBracketed_suffix
    ((readAt_eq_readFrom readBracketed_suffix _ _).symm.trans found)
  arguments found := isOffsetFrom_of_readFrom readArguments_suffix found
  command found := by
    rw [findCommandAt, split, suffixAt?_append] at found
    rw [split]
    exact isOffsetFrom_of_findCommandFrom rfl rfl found
  closing found := isOffsetFrom_of_findClosingAt found
  environment found := by
    rw [findEnvironmentAt, split, suffixAt?_append] at found
    rw [split]
    exact isOffsetFrom_of_findEnvironmentFrom rfl rfl found
  definition found := by
    rw [Preamble.definitionEndAt, split, suffixAt?_append] at found
    obtain ⟨rest, read, rfl⟩ := Option.map_eq_some_iff.mp found
    rw [split]
    exact isOffsetFrom_offsetOf rfl (Preamble.afterDefinition?_suffix read)

theorem walksFit (split : text = before ++ suffix) : WalksFit text (utf8Length before) where
  braced := by
    rw [walkBraced_eq split, readAt_eq_readFrom readBraced_suffix, readFrom_append split]
  bracketed := by
    rw [walkBracketed_eq split, readAt_eq_readFrom readBracketed_suffix, readFrom_append split]
  arguments signature := by rw [walkArguments_eq split, readFrom_append split]
  command name := by
    rw [walkCommand_eq split, findCommandAt, split, suffixAt?_append, Cursor.at_offset_eq]
    rfl
  closing name := walkClosing_eq split
  environment name maxOptions required := by
    rw [walkEnvironment_eq split, findEnvironmentAt, split, suffixAt?_append,
      Cursor.at_offset_eq]
    rfl
  definition shape := by
    rw [Preamble.walkDefinition_eq split, Preamble.definitionEndAt, split, suffixAt?_append]
    rfl

theorem editsFit (text : Text) : EditsFit text where
  declarations respond state := walkDeclarations_eq respond state text
  dollars respond state := walkDollars_eq respond state text
  comment := Code.walkBeforeComment_eq text
  rows := Table.walkRows_eq text
  cells := Table.walkCells_eq text

end Safety

/-- From a start between two characters, all offsets that are found fit, and no walk slices the
text elsewhere than between characters or counts below zero. -/
theorem offsetsFit_walksFit_editsFit {text : Text} {start : Nat}
    (boundary : IsBoundary text start) :
    OffsetsFit text start ∧ WalksFit text start ∧ EditsFit text := by
  obtain ⟨before, suffix, split, rfl⟩ := boundary
  exact ⟨offsetsFit split, walksFit split, editsFit text⟩

/-- A jump over a backslash leads into a character of two bytes, and the group is sliced behind
it. -/
theorem walkBraced_over_wide :
    let text := "é\x7b\\é\x7dß".toList
    IsBoundary text 2 ∧ IsOffsetFrom text 2 7 ∧
      walkBraced text 2 = sound (some ("\\é".toList, 7)) := by
  have boundary : IsBoundary "é\x7b\\é\x7dß".toList 2 := by decide
  have read : readAt readBraced "é\x7b\\é\x7dß".toList 2 = some ("\\é".toList, 7) := by decide
  obtain ⟨offsets, walks, -⟩ := offsetsFit_walksFit_editsFit boundary
  exact ⟨boundary, offsets.braced read, walks.braced.trans (congrArg sound read)⟩

end Scan

end LatexMarkdown
