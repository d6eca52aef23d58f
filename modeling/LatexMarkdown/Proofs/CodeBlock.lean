import LatexMarkdown.Proofs.Agreement
import LatexMarkdown.Proofs.Markers
import LatexMarkdown.Proofs.NestedTable

/-!
# A code block inside a document

The markers of an environment start with their only backslash. What a body holds
that has no such start is therefore passed over by every search for a marker, and
the text around a code block reads the same whatever its body is.
-/

namespace LatexMarkdown

open Scan

namespace Scan

/-! ## Occurrences of markers -/

/-- No marker starts in front of what follows a marker's word. -/
theorem IsMarker.infix_of_infix_word {marker word text : Text} (isMarker : IsMarker marker)
    (plain : '\\' ∉ word) (occurs : marker <:+: word ++ text) : marker <:+: text := by
  induction word with
  | nil => exact occurs
  | cons c others inductionHypothesis =>
    rw [List.cons_append, List.infix_cons_iff] at occurs
    rcases occurs with start | later
    · rw [← List.cons_append] at start
      exact absurd start (isMarker.not_prefix_inside plain (by simp) text)
    · exact inductionHypothesis (fun member => plain (List.mem_cons_of_mem c member)) later

/-- A marker occurs behind another one, or where that one occurs before it. -/
theorem IsMarker.infix_append_marker {marker other before text : Text} (isMarker : IsMarker marker)
    (otherIsMarker : IsMarker other) (apart : ¬ marker <+: other ∧ ¬ other <+: marker)
    (occurs : marker <:+: before ++ (other ++ text)) : marker <:+: before ∨ marker <:+: text := by
  obtain ⟨otherWord, rfl, otherPlain⟩ := otherIsMarker
  have behind (inside : marker <:+: '\\' :: (otherWord ++ text)) : marker <:+: text := by
    rcases List.infix_cons_iff.mp inside with start | later
    · exact absurd start (Text.not_prefix_append apart.1 apart.2 text)
    · exact isMarker.infix_of_infix_word otherPlain later
  obtain ⟨word, rfl, plain⟩ := isMarker
  exact (Table.infix_append_sign plain occurs).imp_right behind

/-! ## An environment in the way -/

/-- An environment without arguments. -/
def enclosed (name body : Text) : Text :=
  beginMarker name ++ (body ++ endMarker name)

/-- A body in which no environment is opened or closed. -/
structure IsSealed (body : Text) : Prop where
  unopened : ¬ Document.Inset.environmentOpening <:+: body
  unclosed : ¬ Table.environmentClosing <:+: body

/-- Neither marker of an environment starts in a sealed body. -/
theorem IsSealed.not_prefix {name body : Text} (isSealed : IsSealed body) (bare : '\\' ∉ name)
    {suffix : Text} (within : suffix <:+ body) (nonempty : suffix ≠ []) (after : Text) :
    ¬ beginMarker name <+: suffix ++ '\\' :: after ∧
      ¬ endMarker name <+: suffix ++ '\\' :: after := by
  rw [(isMarker_beginMarker bare).prefix_append_iff nonempty,
    (isMarker_endMarker bare).prefix_append_iff nonempty]
  have opening : Document.Inset.environmentOpening <+: beginMarker name := ⟨name ++ ['}'], rfl⟩
  have closing : Table.environmentClosing <+: endMarker name := ⟨name ++ ['}'], rfl⟩
  constructor
  · exact fun start => isSealed.unopened ((opening.trans start).isInfix.trans within.isInfix)
  · exact fun start => isSealed.unclosed ((closing.trans start).isInfix.trans within.isInfix)

section Enclosed

variable {name : Text} (bare : '\\' ∉ name)

include bare

/-- A sealed body is passed over up to a backslash. -/
theorem splitAtClosing_sealed {body : Text} (isSealed : IsSealed body) (depth : Nat)
    (after : Text) :
    splitAtClosing (beginMarker name) (endMarker name) depth 0 (body ++ '\\' :: after) =
      (splitAtClosing (beginMarker name) (endMarker name) depth 0 ('\\' :: after)).map
        fun (found, rest) => (body ++ found, rest) :=
  splitAtClosing_pass
    (fun _ within nonempty => isSealed.not_prefix bare within nonempty after) depth

/-- The search for a closing marker passes over a whole environment of the same
name. -/
theorem splitAtClosing_enclosed {body : Text} (isSealed : IsSealed body) (depth : Nat)
    (rest : Text) :
    splitAtClosing (beginMarker name) (endMarker name) depth 0 (enclosed name body ++ rest) =
      (splitAtClosing (beginMarker name) (endMarker name) depth 0 rest).map
        fun (found, after) => (enclosed name body ++ found, after) := by
  obtain ⟨word, marker, -⟩ := isMarker_endMarker bare
  have inside : splitAtClosing (beginMarker name) (endMarker name) (depth + 1) 0
      (body ++ (endMarker name ++ rest)) =
        (splitAtClosing (beginMarker name) (endMarker name) (depth + 1) 0
          (endMarker name ++ rest)).map fun (found, after) => (body ++ found, after) := by
    have passed := splitAtClosing_sealed bare isSealed (depth + 1) (word ++ rest)
    rwa [← List.cons_append, ← marker] at passed
  rw [enclosed, List.append_assoc, List.append_assoc, splitAtClosing_beginMarker bare, inside,
    splitAtClosing_closing (endMarker_ne_nil name), Option.map_map, Option.map_map]
  simp [Function.comp_def]

end Enclosed

/-! ## Reading around an environment -/

/-- An environment without arguments is read up to the end of its body. -/
theorem readEnvironment_bare {name inside body rest : Text} {cursor : Cursor}
    (unescaped : cursor.escaped = false) (read : readBody name inside = some (body, rest)) :
    ∃ found, found.body = body ∧
      readEnvironment name 0 0 cursor (beginMarker name ++ inside) = some (found, rest) := by
  rw [readEnvironment, unescaped, Text.dropFront?_append]
  simp [readArguments, readOptions, readRequired, read]

/-- Without the end of its body no environment is read. -/
theorem readEnvironment_open {name inside : Text} (cursor : Cursor)
    (read : readBody name inside = none) :
    readEnvironment name 0 0 cursor (beginMarker name ++ inside) = none := by
  rw [readEnvironment, Text.dropFront?_append]
  simp [readArguments, readOptions, readRequired, read]

/-- A sealed body is read up to the closing marker behind it. -/
theorem readBody_enclosed {name : Text} (bare : '\\' ∉ name) {body : Text}
    (isSealed : IsSealed body) (after : Text) :
    readBody name (body ++ (endMarker name ++ after)) = some (body, after) := by
  obtain ⟨word, marker, -⟩ := isMarker_endMarker bare
  have passed := splitAtClosing_sealed bare isSealed 0 (word ++ after)
  rw [← List.cons_append, ← marker, splitAtClosing_ends (endMarker_ne_nil name)] at passed
  rw [readBody, passed]
  simp

/-- An environment with a sealed body is read as a whole. -/
theorem readEnvironment_enclosed {name : Text} (bare : '\\' ∉ name) {body : Text}
    (isSealed : IsSealed body) {cursor : Cursor} (unescaped : cursor.escaped = false)
    (after : Text) :
    ∃ found, found.body = body ∧
      readEnvironment name 0 0 cursor (enclosed name body ++ after) = some (found, after) := by
  rw [enclosed, List.append_assoc, List.append_assoc]
  exact readEnvironment_bare unescaped (readBody_enclosed bare isSealed after)

/-- What reading at the start of a text comes to does not depend on the sealed
body of an environment further on: nothing is read, or an environment before it, or
one around it. -/
theorem readEnvironment_before {name : Text} (bare : '\\' ∉ name) {before : Text}
    (nonempty : before ≠ []) (escaped : Bool) (after : Text) :
    (∀ (cursor : Cursor) body, cursor.escaped = escaped → IsSealed body →
        readEnvironment name 0 0 cursor (before ++ (enclosed name body ++ after)) = none) ∨
      (∃ matched behind, matched ≠ [] ∧ before = matched ++ behind ∧
        ∀ (cursor : Cursor) body, cursor.escaped = escaped → IsSealed body →
          ∃ found, readEnvironment name 0 0 cursor
              (matched ++ (behind ++ (enclosed name body ++ after))) =
            some (found, behind ++ (enclosed name body ++ after))) ∨
      ∃ front rest, after = front ++ endMarker name ++ rest ∧
        ∀ (cursor : Cursor) body, cursor.escaped = escaped → IsSealed body →
          ∃ found, readEnvironment name 0 0 cursor
              (before ++ (enclosed name body ++ front) ++ endMarker name ++ rest) =
            some (found, rest) := by
  have backslash (body : Text) : ∃ tail, enclosed name body ++ after = '\\' :: tail := ⟨_, rfl⟩
  cases escaped with
  | true => exact .inl fun cursor body escaped _ => readEnvironment_escaped escaped _
  | false =>
    by_cases opened : beginMarker name <+: before
    · obtain ⟨inside, rfl⟩ := opened
      rcases splitAtClosing_before (isMarker_beginMarker bare) (isMarker_endMarker bare) 0 inside
        with ⟨own, behind, rfl, ends⟩ | ⟨reached, goesOn⟩
      · refine .inr (.inl ⟨beginMarker name ++ (own ++ endMarker name), behind, ?_, ?_, ?_⟩)
        · exact List.append_ne_nil_of_left_ne_nil (beginMarker_ne_nil name) _
        · simp only [List.append_assoc]
        · intro cursor body unescaped _
          obtain ⟨tail, spelled⟩ := backslash body
          obtain ⟨found, -, read⟩ := readEnvironment_bare unescaped (ends tail)
          refine ⟨found, ?_⟩
          rw [spelled, ← read]
          simp only [List.append_assoc]
      · have around (body : Text) (isSealed : IsSealed body) :
            readBody name (inside ++ (enclosed name body ++ after)) =
              (splitAtClosing (beginMarker name) (endMarker name) reached 0 after).map
                fun (found, rest) => (inside ++ (enclosed name body ++ found), rest) := by
          obtain ⟨tail, spelled⟩ := backslash body
          rw [readBody, spelled, goesOn, ← spelled, splitAtClosing_enclosed bare isSealed,
            Option.map_map]
          rfl
        cases closed : splitAtClosing (beginMarker name) (endMarker name) reached 0 after with
        | none =>
          refine .inl fun cursor body unescaped isSealed => ?_
          rw [List.append_assoc (beginMarker name)]
          exact readEnvironment_open cursor (by rw [around body isSealed, closed]; rfl)
        | some found =>
          obtain ⟨front, rest⟩ := found
          refine .inr (.inr ⟨front, rest, splitAtClosing_eq_append closed, ?_⟩)
          intro cursor body unescaped isSealed
          have inner := around body isSealed
          rw [closed, Option.map_some] at inner
          obtain ⟨found, -, read⟩ := readEnvironment_bare unescaped inner
          refine ⟨found, ?_⟩
          rw [← read, splitAtClosing_eq_append closed]
          simp only [List.append_assoc]
    · refine .inl fun cursor body _ _ => readEnvironment_unopened cursor ?_
      obtain ⟨tail, spelled⟩ := backslash body
      rw [spelled, (isMarker_beginMarker bare).prefix_append_iff nonempty]
      exact opened

/-! ## Editing around an environment -/

/-- What escapes the position after a text depends only on what escapes the
position before it. -/
theorem Cursor.advanceOver_escaped_congr {cursor moved : Cursor}
    (escaped : cursor.escaped = moved.escaped) (text : Text) :
    (cursor.advanceOver text).escaped = (moved.advanceOver text).escaped := by
  induction text generalizing cursor moved with
  | nil => exact escaped
  | cons c rest inductionHypothesis =>
    exact inductionHypothesis (congrArg (escapesNext · c) escaped)

/-- Nothing escapes the position after an environment. -/
theorem Cursor.advanceOver_endMarker (cursor : Cursor) (before name : Text) :
    (cursor.advanceOver (before ++ endMarker name)).escaped = false := by
  rw [endMarker_eq, ← List.append_assoc]
  exact advanceOver_concat_escaped cursor _ (by decide)

section Twins

variable {σ : Type} {related : σ → σ → Prop} {first second : Answer σ Environment}

/-- Answers that write the same from related states, whatever environments they
are asked about. -/
def Indifferent (related : σ → σ → Prop) (first second : Answer σ Environment) : Prop :=
  ∀ state other found twin, related state other →
    related (first state found).1 (second other twin).1 ∧
      ∃ written, (first state found).2 = some written ∧ (second other twin).2 = some written

/-- Two edits that reach related states and write the same. -/
def Coincide (related : σ → σ → Prop) (one other : σ × Text) : Prop :=
  related one.1 other.1 ∧ one.2 = other.2

variable {name : Text} {maxOptions required : Nat} {state other : σ} {cursor moved : Cursor}

/-- Where both edits find nothing, they coincide if they coincide later. -/
theorem Coincide.keep (bare : '\\' ∉ name) {c : Char} {rest twinRest : Text}
    (unread : readEnvironment name maxOptions required cursor (c :: rest) = none)
    (alsoUnread : readEnvironment name maxOptions required moved (c :: twinRest) = none)
    (later : Coincide related
      (editFrom (environmentRule name maxOptions required first) state (cursor.advance c) 0 rest)
      (editFrom (environmentRule name maxOptions required second) other (moved.advance c) 0
        twinRest)) :
    Coincide related
      (editFrom (environmentRule name maxOptions required first) state cursor 0 (c :: rest))
      (editFrom (environmentRule name maxOptions required second) other moved 0
        (c :: twinRest)) := by
  rw [editFrom_environmentRule_unread bare unread, editFrom_environmentRule_unread bare alsoUnread]
  exact ⟨later.1, congrArg (c :: ·) later.2⟩

/-- Where both edits find an environment, they coincide if they coincide behind
it. -/
theorem Coincide.replace (indifferent : Indifferent related first second)
    {matched twinMatched rest twinRest : Text} (nonempty : matched ≠ [] ∧ twinMatched ≠ [])
    (start : related state other)
    (read : ∃ found, readEnvironment name maxOptions required cursor (matched ++ rest) =
      some (found, rest))
    (alsoRead : ∃ twin, readEnvironment name maxOptions required moved (twinMatched ++ twinRest) =
      some (twin, twinRest))
    (later : ∀ next twinNext, related next twinNext → Coincide related
      (editFrom (environmentRule name maxOptions required first) next
        (cursor.advanceOver matched) 0 rest)
      (editFrom (environmentRule name maxOptions required second) twinNext
        (moved.advanceOver twinMatched) 0 twinRest)) :
    Coincide related
      (editFrom (environmentRule name maxOptions required first) state cursor 0 (matched ++ rest))
      (editFrom (environmentRule name maxOptions required second) other moved 0
        (twinMatched ++ twinRest)) := by
  obtain ⟨found, read⟩ := read
  obtain ⟨twin, alsoRead⟩ := alsoRead
  obtain ⟨reached, written, answered, alsoAnswered⟩ := indifferent state other found twin start
  have offered : environmentRule name maxOptions required first state cursor (matched ++ rest) =
      ((first state found).1, some (Edit.upTo (matched ++ rest) rest written)) := by
    simp only [environmentRule, read, answered, byAnswer_some]
  have alsoOffered : environmentRule name maxOptions required second other moved
      (twinMatched ++ twinRest) =
        ((second other twin).1,
          some (Edit.upTo (twinMatched ++ twinRest) twinRest written)) := by
    simp only [environmentRule, alsoRead, alsoAnswered, byAnswer_some]
  rw [editFrom_replace nonempty.1 offered, editFrom_replace nonempty.2 alsoOffered]
  obtain ⟨further, same⟩ := later _ _ reached
  exact ⟨further, congrArg (written ++ ·) same⟩

/-- How far an environment is read depends on the position only in what escapes
it. -/
theorem readEnvironment_moved (escaped : cursor.escaped = moved.escaped) (text : Text) :
    (readEnvironment name maxOptions required cursor text).map Prod.snd =
      (readEnvironment name maxOptions required moved text).map Prod.snd := by
  rw [readEnvironment, readEnvironment, escaped]
  split
  · rfl
  · cases Text.dropFront? (beginMarker name) text with
    | none => rfl
    | some after =>
      cases arguments : readArguments ⟨false, maxOptions, required⟩ after with
      | none => simp [arguments]
      | some reading =>
        cases body : readBody name reading.2 <;> simp [arguments, body]

/-- Indifferent answers edit one text in agreement, wherever in a document it
stands. -/
theorem editFrom_moved (indifferent : Indifferent related first second) (bare : '\\' ∉ name)
    (start : related state other) (escaped : cursor.escaped = moved.escaped) (text : Text) :
    Coincide related
      (editFrom (environmentRule name maxOptions required first) state cursor 0 text)
      (editFrom (environmentRule name maxOptions required second) other moved 0 text) := by
  induction size : text.length using Nat.strong_induction_on
    generalizing text state other cursor moved with
  | h size inductionHypothesis =>
    have alike := @readEnvironment_moved name maxOptions required _ _ escaped text
    cases read : readEnvironment name maxOptions required cursor text with
    | none =>
      rw [read, Option.map_none, eq_comm, Option.map_eq_none_iff] at alike
      cases text with
      | nil => exact ⟨by simpa using start, by simp⟩
      | cons c rest =>
        refine .keep bare read alike (inductionHypothesis _ ?_ start ?_ rest rfl)
        · simp [← size]
        · exact congrArg (escapesNext · c) escaped
    | some reading =>
      obtain ⟨found, rest⟩ := reading
      rw [read, Option.map_some, eq_comm, Option.map_eq_some_iff] at alike
      obtain ⟨⟨twin, same⟩, alsoRead, alsoRest⟩ := alike
      obtain rfl : same = rest := alsoRest
      obtain ⟨matched, nonempty, rfl⟩ := readEnvironment_remains read
      refine .replace indifferent ⟨nonempty, nonempty⟩ start ⟨found, read⟩ ⟨twin, alsoRead⟩
        fun next twinNext reached => inductionHypothesis _ ?_ reached
          (Cursor.advanceOver_escaped_congr escaped matched) same rfl
      have := List.length_pos_iff.mpr nonempty
      rw [← size, List.length_append]
      omega

/-- Indifferent answers edit a text in agreement whatever the sealed body of an
environment in it is. -/
theorem editFrom_enclosed (indifferent : Indifferent related first second) (bare : '\\' ∉ name)
    {body twin : Text} (isSealed : IsSealed body) (twinSealed : IsSealed twin)
    (start : related state other) (escaped : cursor.escaped = moved.escaped) {before : Text}
    (unescaped : (cursor.advanceOver before).escaped = false) (after : Text) :
    Coincide related
      (editFrom (environmentRule name 0 0 first) state cursor 0
        (before ++ (enclosed name body ++ after)))
      (editFrom (environmentRule name 0 0 second) other moved 0
        (before ++ (enclosed name twin ++ after))) := by
  induction size : before.length using Nat.strong_induction_on
    generalizing before state other cursor moved with
  | h size inductionHypothesis =>
    have movedUnescaped : (moved.advanceOver before).escaped = false :=
      (Cursor.advanceOver_escaped_congr escaped before).symm.trans unescaped
    -- Behind the environment both edits read the same text.
    have behind (front last rest : Text) {next twinNext : σ} (reached : related next twinNext) :
        Coincide related
          (editFrom (environmentRule name 0 0 first) next
            (cursor.advanceOver (front ++ endMarker name)) 0 rest)
          (editFrom (environmentRule name 0 0 second) twinNext
            (moved.advanceOver (last ++ endMarker name)) 0 rest) :=
      editFrom_moved indifferent bare reached (by simp only [Cursor.advanceOver_endMarker]) rest
    by_cases empty : before = []
    · subst empty
      have whole (cursor : Cursor) (unescaped : cursor.escaped = false) (body : Text)
          (isSealed : IsSealed body) : ∃ found, readEnvironment name 0 0 cursor
            (beginMarker name ++ body ++ endMarker name ++ after) = some (found, after) := by
        obtain ⟨found, -, read⟩ := readEnvironment_enclosed bare isSealed unescaped after
        exact ⟨found, by rw [← read, enclosed]; simp only [List.append_assoc]⟩
      rw [List.nil_append, List.nil_append, enclosed, enclosed, ← List.append_assoc,
        ← List.append_assoc (beginMarker name)]
      have opened (body : Text) : beginMarker name ++ body ++ endMarker name ≠ [] :=
        List.append_ne_nil_of_left_ne_nil
          (List.append_ne_nil_of_left_ne_nil (beginMarker_ne_nil name) _) _
      exact .replace indifferent ⟨opened body, opened twin⟩ start
        (whole cursor unescaped body isSealed) (whole moved movedUnescaped twin twinSealed)
        fun next twinNext reached => behind _ _ after reached
    · rcases readEnvironment_before bare empty cursor.escaped after with
        unread | ⟨matched, rest, nonempty, rfl, read⟩ | ⟨front, rest, rfl, read⟩
      · obtain ⟨c, others, rfl⟩ := List.exists_cons_of_ne_nil empty
        refine .keep bare (unread cursor body rfl isSealed) (unread moved twin escaped.symm twinSealed)
          (inductionHypothesis _ ?_ start (congrArg (escapesNext · c) escaped) unescaped rfl)
        simp [← size]
      · have shorter : rest.length < (matched ++ rest).length := by
          have := List.length_pos_iff.mpr nonempty
          rw [List.length_append]
          omega
        rw [List.append_assoc, List.append_assoc]
        refine .replace indifferent ⟨nonempty, nonempty⟩ start (read cursor body rfl isSealed)
          (read moved twin escaped.symm twinSealed) fun next twinNext reached =>
            inductionHypothesis _ (size ▸ shorter) reached
              (Cursor.advanceOver_escaped_congr escaped matched) ?_ rfl
        rwa [Cursor.advanceOver, List.foldl_append] at unescaped
      · have split (body : Text) : before ++ (enclosed name body ++ (front ++ endMarker name ++ rest)) =
            before ++ (enclosed name body ++ front) ++ endMarker name ++ rest := by
          simp only [List.append_assoc]
        rw [split, split]
        exact .replace indifferent ⟨by simp [empty], by simp [empty]⟩ start
          (read cursor body rfl isSealed) (read moved twin escaped.symm twinSealed)
          fun next twinNext reached => behind _ _ rest reached

end Twins

end Scan

end LatexMarkdown
