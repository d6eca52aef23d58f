import LatexMarkdown.Proofs.Offsets

/-!
# Walking over the bytes of a text

A scan can run over the bytes of a text instead of its characters: it keeps an index, jumps two
bytes over an escaped character, and slices the text where it has found something. Such a scan
is safe only if every slice ends between two characters and no counter falls below zero. Here
both are checked: a slice or a counter that is out of range is a fault, and not a result.

A jump may land inside a character. The bytes there are no characters of ASCII, so a scan that
reacts to these alone walks on to the end of the character.
-/

namespace LatexMarkdown

/-- The outcome of a scan that is checked: a fault, or what it has found, if anything. -/
abbrev Checked (α : Type) := OptionT (Except Fault) α

namespace Checked

variable {α β : Type}

/-- A scan without a fault. -/
def sound (found : Option α) : Checked α :=
  OptionT.mk (.ok found)

/-- A scan that ends with a fault. -/
def fail (fault : Fault) : Checked α :=
  OptionT.mk (.error fault)

/-- Go on whether or not something is found. -/
def attempt (scan : Checked α) : Checked (Option α) :=
  OptionT.mk (scan.run.map some)

@[simp] theorem pure_eq_sound (value : α) : (pure value : Checked α) = sound (some value) :=
  rfl

@[simp] theorem failure_eq_sound : (failure : Checked α) = sound none :=
  rfl

@[simp] theorem sound_none_bind (next : α → Checked β) : sound none >>= next = sound none :=
  rfl

@[simp] theorem sound_some_bind (value : α) (next : α → Checked β) :
    sound (some value) >>= next = next value :=
  rfl

@[simp] theorem attempt_sound (found : Option α) : attempt (sound found) = sound (some found) :=
  rfl

/-- Count down, which is a fault at zero. -/
def decrement : Nat → Checked Nat
  | 0 => fail .counter
  | counter + 1 => sound (some counter)

@[simp] theorem decrement_succ (counter : Nat) : decrement (counter + 1) = sound (some counter) :=
  rfl

end Checked

open Checked

namespace Text

/-! ## Bytes -/

/-- The bytes of a character, each as the character with the same code. -/
def bytesOf (c : Char) : Text :=
  (String.utf8EncodeChar c).map Char.ofUInt8

/-- The bytes of the UTF-8 form. -/
def bytes (text : Text) : Text :=
  text.flatMap bytesOf

/-- The byte at an offset. -/
def byteAt? (text : Text) (offset : Nat) : Option Char :=
  (bytes text)[offset]?

theorem length_bytesOf (c : Char) : (bytesOf c).length = c.utf8Size := by
  rw [bytesOf, List.length_map, String.length_utf8EncodeChar]

theorem length_bytes (text : Text) : (bytes text).length = utf8Length text := by
  induction text with
  | nil => rfl
  | cons c rest inductionHypothesis =>
    rw [bytes, List.flatMap_cons, List.length_append, length_bytesOf, utf8Length]
    exact congrArg (c.utf8Size + ·) inductionHypothesis

theorem utf8Length_concat (text : Text) (c : Char) :
    utf8Length (text ++ [c]) = utf8Length text + c.utf8Size := by
  rw [utf8Length_append, utf8Length, utf8Length, Nat.add_zero]

/-- A character of ASCII is its own byte. -/
theorem bytesOf_ascii {c : Char} (ascii : c.toNat < 128) : bytesOf c = [c] := by
  have small : c.val.toNat ≤ 127 := Nat.le_of_lt_succ ascii
  have single : String.utf8EncodeChar c = [UInt8.ofNat c.toNat] := if_pos small
  have fits : (UInt8.ofNat c.toNat).toNat = c.toNat :=
    UInt8.toNat_ofNat_of_lt' (Nat.lt_of_lt_of_le ascii (by decide))
  have same : Char.ofUInt8 (UInt8.ofNat c.toNat) = c :=
    Char.ext (UInt32.toNat_inj.mp ((UInt8.toNat_toUInt32 _).trans fits))
  rw [bytesOf, single, List.map_singleton, same]

theorem utf8Size_of_ascii {c : Char} (ascii : c.toNat < 128) : c.utf8Size = 1 := by
  rw [← length_bytesOf, bytesOf_ascii ascii, List.length_singleton]

/-- The bytes of any other character are no characters of ASCII. -/
theorem wide_of_mem_bytesOf {c byte : Char} (wide : 128 ≤ c.toNat) (member : byte ∈ bytesOf c) :
    128 ≤ byte.toNat := by
  have large : ¬ c.val.toNat ≤ 127 := Nat.not_le_of_lt wide
  have high {value modulus base : Nat} (positive : 0 < modulus) (above : 128 ≤ base)
      (fits : base + modulus ≤ 256) :
      128 ≤ (Char.ofUInt8 (UInt8.ofNat (value % modulus + base))).toNat := by
    have below := Nat.mod_lt value positive
    have same : (Char.ofUInt8 (UInt8.ofNat (value % modulus + base))).toNat =
        value % modulus + base :=
      (UInt8.toNat_toUInt32 _).trans (UInt8.toNat_ofNat_of_lt' (by change _ < 256; omega))
    omega
  simp only [bytesOf, String.utf8EncodeChar, if_neg large] at member
  split at member <;> [skip; split at member] <;>
    simp only [List.map_cons, List.map_nil, List.mem_cons, List.not_mem_nil, or_false] at member
  · rcases member with rfl | rfl <;> exact high (by decide) (by decide) (by decide)
  · rcases member with rfl | rfl | rfl <;> exact high (by decide) (by decide) (by decide)
  · rcases member with rfl | rfl | rfl | rfl <;> exact high (by decide) (by decide) (by decide)

/-- Behind a front the bytes are those of what follows it. -/
theorem byteAt?_append (before after : Text) (offset : Nat) :
    byteAt? (before ++ after) (utf8Length before + offset) = byteAt? after offset := by
  rw [byteAt?, bytes, List.flatMap_append, ← length_bytes before, bytes,
    List.getElem?_append_right (Nat.le_add_right _ _), Nat.add_sub_cancel_left]
  rfl

/-- Inside a character the bytes are its own. -/
theorem byteAt?_inside (before rest : Text) {c : Char} {offset : Nat}
    (inside : offset < c.utf8Size) :
    byteAt? (before ++ c :: rest) (utf8Length before + offset) = (bytesOf c)[offset]? := by
  rw [← length_bytesOf] at inside
  rw [byteAt?_append, byteAt?, bytes, List.flatMap_cons, List.getElem?_append_left inside]

theorem byteAt?_ascii {c : Char} (ascii : c.toNat < 128) (before rest : Text) :
    byteAt? (before ++ c :: rest) (utf8Length before) = some c := by
  have first := byteAt?_inside before rest c.utf8Size_pos
  rw [bytesOf_ascii ascii] at first
  exact first

/-- Inside a character that is not of ASCII, and at its start, the bytes are none of ASCII. -/
theorem byteAt?_wide {c : Char} (wide : 128 ≤ c.toNat) (before rest : Text) {offset : Nat}
    (inside : offset < c.utf8Size) :
    ∃ byte, byteAt? (before ++ c :: rest) (utf8Length before + offset) = some byte ∧
      128 ≤ byte.toNat := by
  have bound : offset < (bytesOf c).length := by rwa [length_bytesOf]
  refine ⟨(bytesOf c)[offset], ?_, wide_of_mem_bytesOf wide (List.getElem_mem bound)⟩
  rw [byteAt?_inside before rest inside, List.getElem?_eq_getElem bound]

/-! ## Slices -/

/-- What stands behind an offset. -/
def sliceFrom (text : Text) (start : Nat) : Checked Text :=
  match suffixAt? text start with
  | some suffix => sound (some suffix)
  | none => fail .slice

/-- What stands between two offsets. -/
def slice (text : Text) (start stop : Nat) : Checked Text := do
  let suffix ← sliceFrom text start
  let rest ← sliceFrom text stop
  if start ≤ stop then pure (suffix.take (suffix.length - rest.length)) else fail .slice

theorem sliceFrom_of_split {text before after : Text} (split : text = before ++ after) :
    sliceFrom text (utf8Length before) = sound (some after) := by
  rw [sliceFrom, split, suffixAt?_append]

theorem slice_of_split {text before piece after : Text} (split : text = before ++ piece ++ after) :
    slice text (utf8Length before) (utf8Length (before ++ piece)) = sound (some piece) := by
  have ordered := utf8Length_le_append before piece
  have whole : text = before ++ (piece ++ after) := by rw [split, List.append_assoc]
  rw [slice, sliceFrom_of_split whole, sound_some_bind, sliceFrom_of_split split, sound_some_bind,
    if_pos ordered, List.length_append, Nat.add_sub_cancel, List.take_left, pure_eq_sound]

/-- A slice is no fault exactly if both its ends lie between characters, and in this order. -/
theorem exists_slice_iff {text : Text} {start stop : Nat} :
    (∃ piece, slice text start stop = sound (some piece)) ↔
      IsBoundary text start ∧ IsBoundary text stop ∧ start ≤ stop := by
  simp only [isBoundary_iff, slice, sliceFrom]
  cases suffixAt? text start with
  | none => exact iff_of_false nofun nofun
  | some suffix =>
    cases suffixAt? text stop with
    | none => exact iff_of_false nofun nofun
    | some rest =>
      simp only [sound_some_bind]
      split
      next ordered => exact iff_of_true ⟨_, rfl⟩ ⟨⟨suffix, rfl⟩, ⟨rest, rfl⟩, ordered⟩
      next crossed => exact iff_of_false nofun fun inOrder => crossed inOrder.2.2

/-- No slice ends inside a character of two bytes. -/
example : slice "é".toList 0 1 = fail .slice := rfl

end Text

namespace Scan

open Text

variable {σ α : Type}

/-! ## Loops -/

/-- What a step of a loop does: it moves on, with a new state, or it ends the loop. -/
inductive Move (σ α : Type) where
  | jump (state : σ) (index : Nat)
  | stop (result : α)

/-- Step on from an index up to a limit. -/
def repeatFrom (limit : Nat) (step : σ → Nat → Checked (Move σ α)) (finish : σ → Checked α)
    (state : σ) (index : Nat) : Checked α :=
  if index < limit then do
    match ← step state index with
    | .stop result => pure result
    | .jump next target =>
      if index < target then repeatFrom limit step finish next target else fail .stuck
  else finish state
termination_by limit - index

section Repeat

variable {limit : Nat} {step : σ → Nat → Checked (Move σ α)} {finish : σ → Checked α}
  {state : σ} {index : Nat}

theorem repeatFrom_jump {next : σ} {target : Nat} (inside : index < limit)
    (steps : step state index = sound (some (.jump next target))) (moves : index < target) :
    repeatFrom limit step finish state index = repeatFrom limit step finish next target := by
  rw [repeatFrom, if_pos inside, steps, sound_some_bind]
  exact if_pos moves

theorem repeatFrom_stop (found : Option α) (inside : index < limit)
    (steps : step state index = sound (found.map .stop)) :
    repeatFrom limit step finish state index = sound found := by
  rw [repeatFrom, if_pos inside, steps]
  cases found <;> rfl

theorem repeatFrom_end (outside : limit ≤ index) :
    repeatFrom limit step finish state index = finish state := by
  rw [repeatFrom, if_neg (Nat.not_lt_of_le outside)]

end Repeat

/-- Step over the bytes of a text from an index on. -/
def walk (text : Text) (step : σ → Nat → Char → Checked (Move σ α)) (finish : σ → Checked α) :
    σ → Nat → Checked α :=
  repeatFrom (utf8Length text) (fun state index =>
    match byteAt? text index with
    | some byte => step state index byte
    | none => fail .slice) finish

/-- A step passes over all bytes that are no characters of ASCII. -/
def IsCalm (step : σ → Nat → Char → Checked (Move σ α)) : Prop :=
  ∀ state index byte, 128 ≤ byte.toNat → step state index byte = pure (.jump state (index + 1))

section Walk

variable {step : σ → Nat → Char → Checked (Move σ α)} {finish : σ → Checked α} {state next : σ}
  {text before rest : Text} {c : Char}

/-- At the end of the text the walk is over. -/
theorem walk_end (split : text = before ++ []) :
    walk text step finish state (utf8Length before) = finish state := by
  rw [List.append_nil] at split
  exact repeatFrom_end (Nat.le_of_eq (congrArg utf8Length split))

theorem utf8Length_lt_of_split (split : text = before ++ c :: rest) :
    utf8Length before < utf8Length text := by
  rw [split]
  exact utf8Length_lt_append before (List.cons_ne_nil c rest)

/-- A walk ends at a character of ASCII if its step does. -/
theorem walk_stop (found : Option α) (split : text = before ++ c :: rest) (ascii : c.toNat < 128)
    (steps : step state (utf8Length before) c = sound (found.map .stop)) :
    walk text step finish state (utf8Length before) = sound found := by
  refine repeatFrom_stop found (utf8Length_lt_of_split split) ?_
  rw [split, byteAt?_ascii ascii]
  exact steps

/-- A walk goes on from a character of ASCII where its step jumps to. -/
theorem walk_jump (split : text = before ++ c :: rest) {target : Nat} (ascii : c.toNat < 128)
    (steps : step state (utf8Length before) c = sound (some (.jump next target)))
    (moves : utf8Length before < target) :
    walk text step finish state (utf8Length before) = walk text step finish next target := by
  refine repeatFrom_jump (utf8Length_lt_of_split split) ?_ moves
  rw [split, byteAt?_ascii ascii]
  exact steps

/-- A step to the next byte leads over a character of ASCII. -/
theorem walk_next (split : text = before ++ c :: rest) (ascii : c.toNat < 128)
    (steps : step state (utf8Length before) c =
      sound (some (.jump next (utf8Length before + 1)))) :
    walk text step finish state (utf8Length before) =
      walk text step finish next (utf8Length (before ++ [c])) := by
  rw [utf8Length_concat, utf8Size_of_ascii ascii]
  exact walk_jump split ascii steps (Nat.lt_succ_self _)

/-- From inside a character that is not of ASCII a calm walk goes on to its end. -/
theorem walk_inside (calm : IsCalm step) (split : text = before ++ c :: rest)
    (wide : 128 ≤ c.toNat) (offset : Nat) (inside : offset ≤ c.utf8Size) :
    walk text step finish state (utf8Length before + offset) =
      walk text step finish state (utf8Length (before ++ [c])) := by
  induction left : c.utf8Size - offset generalizing offset with
  | zero =>
    rw [utf8Length_concat, Nat.le_antisymm inside (Nat.le_of_sub_eq_zero left)]
  | succ left inductionHypothesis =>
    have within : offset < c.utf8Size := by omega
    obtain ⟨byte, found, high⟩ := byteAt?_wide wide before rest within
    rw [← inductionHypothesis (offset + 1) within (by omega)]
    refine repeatFrom_jump ?_ ?_ (Nat.lt_succ_self _)
    · rw [split, utf8Length_append, utf8Length]
      omega
    · rw [split, found]
      exact calm state _ byte high

/-- A calm walk goes on behind a character, of ASCII or not, as its step at it says. -/
theorem walk_char (calm : IsCalm step) (split : text = before ++ c :: rest)
    (steps : step state (utf8Length before) c =
      sound (some (.jump next (utf8Length before + 1)))) :
    walk text step finish state (utf8Length before) =
      walk text step finish next (utf8Length (before ++ [c])) := by
  by_cases ascii : c.toNat < 128
  · exact walk_next split ascii steps
  · have wide := Nat.le_of_not_lt ascii
    have kept := (calm state (utf8Length before) c wide).symm.trans steps
    obtain ⟨rfl, -⟩ := Move.jump.inj (Option.some.inj (Except.ok.inj kept))
    exact walk_inside calm split wide 0 (Nat.zero_le _)

/-- A calm walk passes over a character if it does so in the case that it is of ASCII. -/
theorem walk_pass (calm : IsCalm step) (split : text = before ++ c :: rest)
    (passes : c.toNat < 128 → step state (utf8Length before) c =
      sound (some (.jump state (utf8Length before + 1)))) :
    walk text step finish state (utf8Length before) =
      walk text step finish state (utf8Length (before ++ [c])) := by
  by_cases ascii : c.toNat < 128
  · exact walk_next split ascii (passes ascii)
  · exact walk_inside calm split (Nat.le_of_not_lt ascii) 0 (Nat.zero_le _)

/-- A jump of two bytes from a character of ASCII leads a calm walk to the end of the next
character. -/
theorem walk_over {d : Char} (calm : IsCalm step) (split : text = before ++ c :: d :: rest)
    (ascii : c.toNat < 128) (steps : step state (utf8Length before) c =
      sound (some (.jump next (utf8Length before + 2)))) :
    walk text step finish state (utf8Length before) =
      walk text step finish next (utf8Length (before ++ [c, d])) := by
  have landing : utf8Length before + 2 = utf8Length (before ++ [c]) + 1 := by
    rw [utf8Length_concat, utf8Size_of_ascii ascii]
  have further : text = before ++ [c] ++ d :: rest := by rw [split, List.append_cons]
  rw [walk_jump split ascii steps (Nat.lt_add_of_pos_right (by decide)), landing,
    List.append_cons before c [d]]
  by_cases narrow : d.toNat < 128
  · rw [utf8Length_concat _ d, utf8Size_of_ascii narrow]
  · exact walk_inside calm further (Nat.le_of_not_lt narrow) 1 d.utf8Size_pos

/-- From the last character of the text a jump of two bytes ends the walk. -/
theorem walk_beyond (split : text = before ++ [c]) (ascii : c.toNat < 128)
    (steps : step state (utf8Length before) c =
      sound (some (.jump next (utf8Length before + 2)))) :
    walk text step finish state (utf8Length before) = finish next := by
  rw [walk_jump split ascii steps (Nat.lt_add_of_pos_right (by decide))]
  refine repeatFrom_end ?_
  rw [split, utf8Length_concat, utf8Size_of_ascii ascii]
  exact Nat.le_succ _

end Walk

end Scan

end LatexMarkdown
