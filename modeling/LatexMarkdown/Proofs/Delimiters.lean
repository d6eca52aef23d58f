import LatexMarkdown.Proofs.Unescaped

/-!
# Searching for delimiters

A search for a delimiter finds its first occurrence that is not escaped. It gives a result
unless it meets, behind a backslash, an occurrence that starts with a character of several
bytes: there it goes on inside the character. An edit between two delimiters therefore gives
a result for all delimiters that start with a single byte, and wherever it gives one, it is
the edit that looks at one position after another.
-/

namespace LatexMarkdown.Scan

/-! ## Outcomes -/

section Outcome

variable {α β : Type} {change : α → β} {outcome : Except Fault α}

theorem map_eq_error_iff {fault : Fault} :
    outcome.map change = .error fault ↔ outcome = .error fault := by
  cases outcome <;> simp [Except.map]

theorem map_eq_ok_iff {value : β} :
    outcome.map change = .ok value ↔ ∃ found, outcome = .ok found ∧ change found = value := by
  cases outcome <;> simp [Except.map]

end Outcome

/-! ## The first occurrence -/

section Split

variable {pattern : Text} {escaped : Bool} {text body rest : Text}

/-- The place where a text is split is not escaped. -/
theorem escapesAfter_of_splitUnescaped?
    (read : splitUnescaped? pattern escaped text = some (body, rest)) :
    escapesAfter escaped body = false := by
  induction text generalizing escaped body with
  | nil =>
    rw [splitUnescaped?] at read
    split at read
    next empty =>
      obtain ⟨rfl, -⟩ := Prod.mk.inj (Option.some.inj read)
      rw [Bool.and_eq_true, Bool.not_eq_true'] at empty
      exact empty.2
    · cases read
  | cons c others inductionHypothesis =>
    rw [splitUnescaped?] at read
    split at read
    next found =>
      obtain ⟨rfl, -⟩ := Prod.mk.inj (Option.some.inj read)
      cases escaped with
      | true => cases found
      | false => rfl
    · obtain ⟨inner, later, rfl⟩ := keepFirst_eq_some read
      rw [escapesAfter_cons]
      exact inductionHypothesis later

/-- A text is split in front of a pattern that starts nowhere before. -/
theorem splitUnescaped?_first (closes : escapesAfter escaped body = false)
    (first : Everywhere (fun suffix => ¬ pattern <+: suffix ++ (pattern ++ rest)) escaped body) :
    splitUnescaped? pattern escaped (body ++ (pattern ++ rest)) = some (body, rest) := by
  induction body generalizing escaped with
  | nil =>
    obtain rfl : escaped = false := closes
    cases whole : pattern ++ rest with
    | nil =>
      obtain ⟨rfl, rfl⟩ := List.append_eq_nil_iff.mp whole
      rfl
    | cons c others =>
      have found := Text.dropFront?_append pattern rest
      rw [whole] at found
      rw [List.nil_append, splitUnescaped?]
      simp only [Bool.false_eq_true, if_false, found]
  | cons c others inductionHypothesis =>
    have passed : (if escaped then none
        else Text.dropFront? pattern (c :: (others ++ (pattern ++ rest)))) = none := by
      cases escaped with
      | true => rfl
      | false => exact Text.dropFront?_eq_none_iff.mpr (first.1 rfl)
    rw [List.cons_append, splitUnescaped?, passed]
    simp only [inductionHypothesis closes first.2, keepFirst]

/-- A text is split at the first place where a pattern starts that is not escaped. -/
theorem splitUnescaped?_iff :
    splitUnescaped? pattern escaped text = some (body, rest) ↔
      text = body ++ (pattern ++ rest) ∧ escapesAfter escaped body = false ∧
        Everywhere (fun suffix => ¬ pattern <+: suffix ++ (pattern ++ rest)) escaped body := by
  constructor
  · intro read
    refine ⟨?_, escapesAfter_of_splitUnescaped? read, splitUnescaped?_passes read⟩
    rw [splitUnescaped?_eq_append read, List.append_assoc]
  · rintro ⟨rfl, closes, first⟩
    exact splitUnescaped?_first closes first

/-- A pattern that is not found starts at no position that is not escaped. -/
theorem splitUnescaped?_absent (absent : splitUnescaped? pattern escaped text = none) :
    Everywhere (fun suffix => ¬ pattern <+: suffix) escaped text := by
  induction text generalizing escaped with
  | nil => trivial
  | cons c others inductionHypothesis =>
    rw [splitUnescaped?] at absent
    split at absent
    · cases absent
    next unstarted =>
      refine ⟨fun free => ?_, inductionHypothesis ?_⟩
      · rw [free] at unstarted
        exact Text.dropFront?_eq_none_iff.mp unstarted
      · cases later : splitUnescaped? pattern (escapesNext escaped c) others with
        | none => rfl
        | some pair =>
          rw [later] at absent
          cases absent

/-- Where a pattern occurs nowhere, it occurs nowhere behind a front. -/
theorem splitUnescaped?_behind {front : Text}
    (absent : splitUnescaped? pattern escaped (front ++ rest) = none) :
    splitUnescaped? pattern (escapesAfter escaped front) rest = none := by
  induction front generalizing escaped with
  | nil => exact absent
  | cons c others inductionHypothesis =>
    rw [List.cons_append, splitUnescaped?] at absent
    split at absent
    · cases absent
    · refine inductionHypothesis ?_
      cases later : splitUnescaped? pattern (escapesNext escaped c) (others ++ rest) with
      | none => rfl
      | some pair =>
        rw [later] at absent
        cases absent

end Split

/-! ## Searches with a result -/

section Find

variable {pattern : Text} {escaped : Bool} {text : Text}

/-- A pattern starts with a character of several bytes at a position of a text that a
backslash escapes. -/
def OccursEscapedWide (pattern : Text) (escaped : Bool) (text : Text) : Prop :=
  ∃ front c rest, text = front ++ c :: rest ∧ escapesAfter escaped front = true ∧
    pattern <+: c :: rest ∧ c.utf8Size ≠ 1

theorem OccursEscapedWide.behind {rest : Text} (front : Text)
    (occurs : OccursEscapedWide pattern (escapesAfter escaped front) rest) :
    OccursEscapedWide pattern escaped (front ++ rest) := by
  obtain ⟨before, c, after, rfl, escapes, starts, wide⟩ := occurs
  exact ⟨front ++ before, c, after, by simp, by simpa using escapes, starts, wide⟩

/-- A pattern that starts with a single byte starts nowhere with a wider character. -/
theorem not_occursEscapedWide (narrow : startsNarrow pattern = true) :
    ¬ OccursEscapedWide pattern escaped text := by
  rintro ⟨front, c, rest, -, -, starts, wide⟩
  cases pattern with
  | nil => cases narrow
  | cons d others =>
    obtain ⟨rfl, -⟩ := List.cons_prefix_cons.mp starts
    exact wide (of_decide_eq_true narrow)

/-- A search that gives a result gives the first occurrence that is not escaped. -/
theorem findUnescaped_eq_ok {found : Option (Text × Text)}
    (finds : findUnescaped pattern escaped text = .ok found) :
    splitUnescaped? pattern escaped text = found := by
  induction text generalizing escaped found with
  | nil => exact Except.ok.inj finds
  | cons c rest inductionHypothesis =>
    have kept (goesOn : (findUnescaped pattern (escapesNext escaped c) rest).map (keepFirst c) =
        .ok found) :
        keepFirst c (splitUnescaped? pattern (escapesNext escaped c) rest) = found := by
      obtain ⟨other, later, rfl⟩ := map_eq_ok_iff.mp goesOn
      rw [inductionHypothesis later]
    rw [findUnescaped] at finds
    rw [splitUnescaped?]
    split at finds
    next unstarted =>
      simp only [unstarted, ite_self]
      exact kept finds
    next after starts =>
      cases escaped with
      | false =>
        simp only [starts, Bool.false_eq_true, if_false]
        exact Except.ok.inj finds
      | true =>
        simp only [Bool.not_true, Bool.false_eq_true, if_false] at finds
        split at finds
        · exact kept finds
        · cases finds

/-- A search faults only where it meets the pattern behind a backslash, and the pattern starts
with a character of several bytes there. -/
theorem findUnescaped_eq_error {fault : Fault}
    (faults : findUnescaped pattern escaped text = .error fault) :
    fault = .slice ∧ OccursEscapedWide pattern escaped text := by
  induction text generalizing escaped with
  | nil => cases faults
  | cons c rest inductionHypothesis =>
    have kept (goesOn : (findUnescaped pattern (escapesNext escaped c) rest).map (keepFirst c) =
        .error fault) : fault = .slice ∧ OccursEscapedWide pattern escaped (c :: rest) := by
      obtain ⟨same, occurs⟩ := inductionHypothesis (map_eq_error_iff.mp goesOn)
      exact ⟨same, occurs.behind [c]⟩
    rw [findUnescaped] at faults
    split at faults
    · exact kept faults
    next after starts =>
      cases escaped with
      | false => cases faults
      | true =>
        simp only [Bool.not_true, Bool.false_eq_true, if_false] at faults
        split at faults
        · exact kept faults
        next wide =>
          obtain rfl := Except.error.inj faults
          exact ⟨rfl, [], c, rest, rfl, rfl,
            ⟨after, (Text.dropFront?_eq_some_iff.mp starts).symm⟩, wide⟩

end Find

/-! ## Edits between delimiters -/

section Edit

variable {σ : Type} {opening closing : Text} {answer : Answer σ Text} {cursor : Cursor}
  {state : σ} {text before inside body rest : Text}

/-- The rule for delimited spans offers nothing at a position that is escaped, or where the
opening delimiter does not start, or behind which the closing one does not occur. -/
theorem delimitedRule_silent (cursor : Cursor) (text : Text)
    (silent : cursor.escaped = true ∨ ∀ inside, text = opening ++ inside →
      splitUnescaped? closing (escapesAfter false opening) inside = none) :
    delimitedRule opening closing answer state cursor text = (state, none) := by
  rw [delimitedRule]
  split
  · rfl
  next inside opened =>
    split at opened
    · cases opened
    next free =>
      rw [Bool.not_eq_true] at free
      have unclosed := (silent.resolve_left (by simp [free])) inside
        (Text.dropFront?_eq_some_iff.mp opened)
      simp only [Cursor.advanceOver_escaped_eq, free, unclosed]

/-- In front of the first opening delimiter nothing is edited. -/
theorem editFrom_delimitedRule_before
    (opened : splitUnescaped? opening cursor.escaped text = some (before, inside)) :
    editFrom (delimitedRule opening closing answer) state cursor 0 text =
      ((editFrom (delimitedRule opening closing answer) state (cursor.advanceOver before) 0
          (opening ++ inside)).1,
        before ++ (editFrom (delimitedRule opening closing answer) state
          (cursor.advanceOver before) 0 (opening ++ inside)).2) := by
  obtain ⟨rfl, -, first⟩ := splitUnescaped?_iff.mp opened
  refine editFrom_everywhere delimitedRule_silent (first.imp fun suffix _ _ unstarted => ?_)
  rintro inside split
  exact absurd ⟨inside, split.symm⟩ unstarted

/-- A text in which the opening delimiter does not occur stays as it is. -/
theorem editFrom_delimitedRule_unopened
    (unopened : splitUnescaped? opening cursor.escaped text = none) :
    editFrom (delimitedRule opening closing answer) state cursor 0 text = (state, text) := by
  refine editFrom_everywhere_whole delimitedRule_silent
    ((splitUnescaped?_absent unopened).imp fun suffix _ _ unstarted => ?_)
  rintro inside split
  exact absurd ⟨inside, split.symm⟩ unstarted

/-- Where the closing delimiter does not occur behind an opening one, it does not occur behind
a later one. -/
theorem splitUnescaped?_unclosed {front further : Text}
    (unclosed : splitUnescaped? closing (escapesAfter false opening) inside = none)
    (split : opening ++ inside = front ++ (opening ++ further))
    (free : escapesAfter false front = false) :
    splitUnescaped? closing (escapesAfter false opening) further = none := by
  have remains : further <:+ inside := by
    have whole : further <:+ opening ++ inside := ⟨front ++ opening, by simp [split]⟩
    refine List.suffix_of_suffix_length_le whole (List.suffix_append opening inside) ?_
    have lengths := congrArg List.length split
    simp only [List.length_append] at lengths
    omega
  obtain ⟨middle, rfl⟩ := remains
  have same : opening ++ middle = front ++ opening := by
    rw [← List.append_assoc, ← List.append_assoc] at split
    exact List.append_cancel_right split
  have behind := splitUnescaped?_behind unclosed
  rwa [← escapesAfter_append, same, escapesAfter_append, free] at behind

/-- From the first opening delimiter on, without a closing one behind it, a text stays as it
is. -/
theorem editFrom_delimitedRule_unclosed (free : cursor.escaped = false)
    (unclosed : splitUnescaped? closing (escapesAfter false opening) inside = none) :
    editFrom (delimitedRule opening closing answer) state cursor 0 (opening ++ inside) =
      (state, opening ++ inside) := by
  refine editFrom_everywhere_whole delimitedRule_silent (everywhere_of_fronts ?_)
  rintro front suffix split passes - further rfl
  rw [free] at passes
  exact splitUnescaped?_unclosed unclosed split passes

/-- A span is replaced by its answer, and the edit goes on behind it. -/
theorem editFrom_delimitedRule_span (filled : ¬ (opening = [] ∧ closing = []))
    (free : cursor.escaped = false)
    (closed : splitUnescaped? closing (escapesAfter false opening) inside = some (body, rest)) :
    editFrom (delimitedRule opening closing answer) state cursor 0 (opening ++ inside) =
      ((editFrom (delimitedRule opening closing answer) (answer state body).1
          (cursor.advanceOver (opening ++ (body ++ closing))) 0 rest).1,
        (answer state body).2.getD (opening ++ (body ++ closing)) ++
          (editFrom (delimitedRule opening closing answer) (answer state body).1
            (cursor.advanceOver (opening ++ (body ++ closing))) 0 rest).2) := by
  obtain ⟨rfl, -, -⟩ := splitUnescaped?_iff.mp closed
  have whole : opening ++ (body ++ (closing ++ rest)) = opening ++ (body ++ closing) ++ rest := by
    simp only [List.append_assoc]
  have nonempty : opening ++ (body ++ closing) ≠ [] := by
    intro empty
    simp only [List.append_eq_nil_iff] at empty
    exact filled ⟨empty.1, empty.2.2⟩
  rw [whole]
  refine editFrom_replace nonempty ?_
  rw [← whole, delimitedRule, free]
  simp only [Bool.false_eq_true, if_false, Text.dropFront?_append, Cursor.advanceOver_escaped_eq,
    free, closed]
  cases (answer state body).2 with
  | none => rw [whole, byAnswer_none, Option.getD_none]
  | some replacement => rw [byAnswer_some, Option.getD_some]

variable (opening closing) in
/-- How an edit between two delimiters comes out, whatever is answered. -/
def outcomeBetween (cursor : Cursor) (text : Text) : Except Fault Unit :=
  (editBetweenFrom opening closing (fun (_ : Unit) _ => ((), none)) () cursor text).map fun _ => ()

/-- Unless both delimiters are empty, what follows a span is shorter than the text. -/
theorem length_behind_span (filled : ¬ (opening = [] ∧ closing = [])) :
    rest.length < (before ++ (opening ++ (body ++ (closing ++ rest)))).length := by
  have nonempty : 0 < opening.length + closing.length := by
    rw [Nat.add_pos_iff_pos_or_pos, List.length_pos_iff, List.length_pos_iff, ← not_and_or]
    exact filled
  simp only [List.length_append]
  omega

/-- An edit between two delimiters comes out alike for all answers, and where it gives a result,
this is the edit that looks at one position after another. -/
theorem editBetweenFrom_eq (filled : ¬ (opening = [] ∧ closing = [])) (cursor : Cursor)
    (text : Text) (state : σ) :
    editBetweenFrom opening closing answer state cursor text =
      (outcomeBetween opening closing cursor text).map fun _ =>
        editFrom (delimitedRule opening closing answer) state cursor 0 text := by
  induction size : text.length using Nat.strong_induction_on generalizing state cursor text with
  | _ size inductionHypothesis =>
  subst size
  rw [outcomeBetween, editBetweenFrom, editBetweenFrom]
  cases opened : findUnescaped opening cursor.escaped text with
  | error fault => rfl
  | ok found =>
  cases found with
  | none =>
    rw [editFrom_delimitedRule_unopened (findUnescaped_eq_ok opened)]
    rfl
  | some pair =>
  obtain ⟨before, inside⟩ := pair
  have first := findUnescaped_eq_ok opened
  obtain ⟨rfl, free, -⟩ := splitUnescaped?_iff.mp first
  rw [editFrom_delimitedRule_before first]
  rw [← Cursor.advanceOver_escaped_eq] at free
  have behind : (cursor.advanceOver (before ++ opening)).escaped = escapesAfter false opening := by
    rw [Cursor.advanceOver_append, Cursor.advanceOver_escaped_eq, free]
  simp only [behind]
  cases closed : findUnescaped closing (escapesAfter false opening) inside with
  | error fault => rfl
  | ok found =>
  cases found with
  | none =>
    rw [editFrom_delimitedRule_unclosed free (findUnescaped_eq_ok closed)]
    rfl
  | some pair =>
  obtain ⟨body, rest⟩ := pair
  have last := findUnescaped_eq_ok closed
  obtain ⟨rfl, -, -⟩ := splitUnescaped?_iff.mp last
  have shorter : rest.length < (before ++ (opening ++ (body ++ (closing ++ rest)))).length :=
    length_behind_span filled
  rw [editFrom_delimitedRule_span filled free last]
  simp only [shorter, if_true, inductionHypothesis rest.length shorter _ rest _ rfl,
    ← Cursor.advanceOver_append, List.append_assoc]
  rw [outcomeBetween]
  cases editBetweenFrom opening closing (fun (_ : Unit) _ => ((), none)) ()
    (cursor.advanceOver (before ++ (opening ++ (body ++ closing)))) rest <;> rfl

/-- Two empty delimiters are found for ever. -/
theorem editBetween_stuck (answer : Answer σ Text) (state : σ) (text : Text) :
    editBetween [] [] answer state text = .error .stuck := by
  have found : findUnescaped [] false text = .ok (some ([], text)) := by cases text <;> rfl
  rw [editBetween, editBetweenFrom]
  simp only [Cursor.start, found, List.append_nil, Cursor.advanceOver_escaped_eq, escapesAfter_nil,
    Nat.lt_irrefl, if_false]

variable (opening closing) in
/-- An edit between two delimiters comes out alike for all answers, and where it gives a result,
this is the edit that looks at one position after another. -/
theorem exists_outcome (text : Text) :
    ∃ outcome : Except Fault Unit, ∀ {τ : Type} (answer : Answer τ Text) (state : τ),
      editBetween opening closing answer state text = outcome.map fun _ =>
        edit (delimitedRule opening closing answer) state text := by
  by_cases filled : opening = [] ∧ closing = []
  · obtain ⟨rfl, rfl⟩ := filled
    exact ⟨.error .stuck, fun answer state => editBetween_stuck answer state text⟩
  · exact ⟨_, fun answer state => editBetweenFrom_eq filled .start text state⟩

/-- An edit faults only where it meets a delimiter behind a backslash, which starts with a character
of several bytes there, or where both delimiters are empty. -/
theorem editBetweenFrom_eq_error {fault : Fault}
    (faults : editBetweenFrom opening closing answer state cursor text = .error fault) :
    fault = .slice ∧ (OccursEscapedWide opening cursor.escaped text ∨
      OccursEscapedWide closing cursor.escaped text) ∨
    fault = .stuck ∧ opening = [] ∧ closing = [] := by
  induction size : text.length using Nat.strong_induction_on generalizing state cursor text with
  | _ size inductionHypothesis =>
  subst size
  rw [editBetweenFrom] at faults
  split at faults
  next opened =>
    obtain rfl := Except.error.inj faults
    obtain ⟨same, occurs⟩ := findUnescaped_eq_error opened
    exact .inl ⟨same, .inl occurs⟩
  · cases faults
  next before inside opened =>
  obtain ⟨rfl, free, -⟩ := splitUnescaped?_iff.mp (findUnescaped_eq_ok opened)
  simp only [Cursor.advanceOver_escaped_eq] at faults
  split at faults
  next closed =>
    obtain rfl := Except.error.inj faults
    obtain ⟨same, occurs⟩ := findUnescaped_eq_error closed
    rw [← List.append_assoc]
    exact .inl ⟨same, .inr (occurs.behind _)⟩
  · cases faults
  next body rest closed =>
  obtain ⟨rfl, -, -⟩ := splitUnescaped?_iff.mp (findUnescaped_eq_ok closed)
  split at faults
  next shorter =>
    have whole : before ++ (opening ++ (body ++ (closing ++ rest))) =
        before ++ opening ++ (body ++ closing) ++ rest := by simp only [List.append_assoc]
    have occurs := inductionHypothesis rest.length shorter (map_eq_error_iff.mp faults) rfl
    simp only [Cursor.advanceOver_escaped_eq, ← escapesAfter_append] at occurs
    rw [whole]
    exact occurs.imp_left (And.imp_right
      (Or.imp (OccursEscapedWide.behind _) (OccursEscapedWide.behind _)))
  next stuck =>
    obtain rfl := Except.error.inj faults
    exact .inr ⟨rfl, not_not.mp fun filled => stuck (length_behind_span filled)⟩

/-- Between delimiters that start with a single byte an edit gives a result. -/
theorem editBetween_narrow (delimiters : Delimiters) (answer : Answer σ Text) (state : σ)
    (text : Text) :
    editBetween delimiters.opening delimiters.closing answer state text =
      .ok (editDelimited delimiters answer state text) := by
  obtain ⟨outcome, alike⟩ := exists_outcome delimiters.opening delimiters.closing text
  rw [alike answer state]
  cases outcome with
  | ok => rfl
  | error fault =>
    obtain ⟨-, occurs | occurs⟩ | ⟨-, empty, -⟩ := editBetweenFrom_eq_error (alike answer state)
    · exact absurd occurs (not_occursEscapedWide delimiters.opens)
    · exact absurd occurs (not_occursEscapedWide delimiters.closes)
    · have narrow := delimiters.opens
      rw [empty] at narrow
      cases narrow

end Edit

end LatexMarkdown.Scan
