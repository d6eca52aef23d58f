import LatexMarkdown.Proofs.Bibliography
import LatexMarkdown.Proofs.Editor
import LatexMarkdown.Proofs.Unescaped

/-!
# The bodies of inline math

Inline math between single dollars ends at the first dollar that is not escaped, and a
blank line before that dollar ends the search. The search looks at those line breaks
only that no backslash escapes, and takes a line for blank only if it holds nothing but
spaces and tabs. A body can therefore hold a blank line all the same: one behind an
escaped break, or one with a carriage return in it.
-/

namespace LatexMarkdown.Scan

/-- What holds at all positions that are not escaped holds of every end of the text that
starts at such a position. -/
theorem everywhere_iff {holds : Text → Prop} {escaped : Bool} {text : Text} :
    Everywhere holds escaped text ↔
      ∀ before after, text = before ++ after → after ≠ [] →
        escapesAfter escaped before = false → holds after := by
  induction text generalizing escaped with
  | nil =>
    refine iff_of_true trivial ?_
    rintro before after split nonempty -
    exact absurd (List.append_eq_nil_iff.mp split.symm).2 nonempty
  | cons c rest inductionHypothesis =>
    rw [Everywhere, inductionHypothesis]
    constructor
    · rintro ⟨here, later⟩ before after split nonempty free
      cases before with
      | nil =>
        obtain rfl : c :: rest = after := split
        exact here free
      | cons d others =>
        obtain ⟨rfl, behind⟩ := List.cons.inj split
        exact later others after behind nonempty free
    · intro all
      constructor
      · exact all [] (c :: rest) rfl (List.cons_ne_nil c rest)
      · rintro before after rfl nonempty free
        exact all (c :: before) after rfl nonempty free

/-! ## Lines that end the search -/

/-- Two line breaks in a text with nothing but blanks between them. -/
structure BlankLine (text before blanks after : Text) : Prop where
  split : text = before ++ '\n' :: (blanks ++ '\n' :: after)
  blank : ∀ c ∈ blanks, c ∈ [' ', '\t', '\r']

theorem startsBlankLine_iff {text : Text} :
    Text.startsBlankLine text = true ↔
      ∃ spaces after, text = spaces ++ '\n' :: after ∧
        ∀ c ∈ spaces, Text.isSpaceOrTab c = true := by
  rw [Text.startsBlankLine, decide_eq_true_eq, List.head?_eq_some_iff]
  constructor
  · rintro ⟨after, found⟩
    refine ⟨text.takeWhile Text.isSpaceOrTab, after, ?_, fun c => List.mem_takeWhile_imp⟩
    rw [← found, List.takeWhile_append_dropWhile]
  · rintro ⟨spaces, after, rfl, spaced⟩
    refine ⟨after, ?_⟩
    rw [List.dropWhile_append_of_pos spaced, List.dropWhile_cons_of_neg (by decide)]

/-- Whether a blank line starts does not depend on a dollar further on. -/
theorem startsBlankLine_dollar (inside rest : Text) :
    Text.startsBlankLine (inside ++ '$' :: rest) = Text.startsBlankLine inside := by
  rw [Bool.eq_iff_iff, startsBlankLine_iff, startsBlankLine_iff]
  constructor
  · rintro ⟨spaces, after, split, spaced⟩
    have reached : spaces ++ ['\n'] <+: inside := by
      have absent : '$' ∉ spaces ++ ['\n'] := by
        rw [List.mem_append, List.mem_singleton, not_or]
        exact ⟨fun member => absurd (spaced _ member) (by decide), by decide⟩
      apply Text.prefix_of_prefix_append_cons absent
      rw [split]
      exact ⟨after, by simp⟩
    obtain ⟨between, rfl⟩ := reached
    exact ⟨spaces, between, by simp, spaced⟩
  · rintro ⟨spaces, after, rfl, spaced⟩
    exact ⟨spaces, after ++ '$' :: rest, by simp, spaced⟩

/-! ## Reading one body -/

/-- The search for the closing dollar passes over a position: it stops at a dollar, and
at a line break with a blank line behind it. -/
def Passes (text : Text) : Prop :=
  text.head? ≠ some '$' ∧ ¬ (text.head? = some '\n' ∧ Text.startsBlankLine text.tail = true)

instance : DecidablePred Passes := fun text =>
  inferInstanceAs (Decidable (text.head? ≠ some '$' ∧
    ¬ (text.head? = some '\n' ∧ Text.startsBlankLine text.tail = true)))

theorem passes_cons {c : Char} {rest : Text} :
    Passes (c :: rest) ↔ c ≠ '$' ∧ ¬ (c = '\n' ∧ Text.startsBlankLine rest = true) := by
  simp [Passes]

theorem not_passes_dollar (rest : Text) : ¬ Passes ('$' :: rest) :=
  fun passes => passes.1 rfl

/-- A body that is read is what stands before an unescaped dollar, and the search passes
over all of it. -/
theorem readDollars_eq_some_iff {escaped : Bool} {text body rest : Text} :
    readDollars escaped text = some (body, rest) ↔
      text = body ++ '$' :: rest ∧ Everywhere Passes escaped body ∧
        escapesAfter escaped body = false := by
  induction text generalizing escaped body with
  | nil => cases escaped <;> simp [readDollars]
  | cons c others inductionHypothesis =>
    -- A kept character is the first of the body, and the rest of the body is read on.
    have keeps {next : Bool} (same : next = escapesNext escaped c)
        (other : escaped = false → c ≠ '$' ∧ ¬ (c = '\n' ∧ Text.startsBlankLine others = true)) :
        keepFirst c (readDollars next others) = some (body, rest) ↔
          c :: others = body ++ '$' :: rest ∧ Everywhere Passes escaped body ∧
            escapesAfter escaped body = false := by
      subst same
      constructor
      · intro read
        obtain ⟨inner, later, rfl⟩ := keepFirst_eq_some read
        obtain ⟨rfl, passed, free⟩ := inductionHypothesis.mp later
        refine ⟨rfl, ⟨fun unescaped => ?_, passed⟩, free⟩
        obtain ⟨undollared, unstopped⟩ := other unescaped
        rw [startsBlankLine_dollar] at unstopped
        exact passes_cons.mpr ⟨undollared, unstopped⟩
      · rintro ⟨split, passed, free⟩
        cases body with
        | nil =>
          obtain ⟨rfl, rfl⟩ := List.cons.inj split
          exact absurd rfl (other free).1
        | cons d inner =>
          obtain ⟨rfl, behind⟩ := List.cons.inj split
          rw [inductionHypothesis.mpr ⟨behind, passed.2, free⟩]
          rfl
    cases escaped with
    | true => exact keeps (by simp [escapesNext]) fun unescaped => absurd unescaped (by decide)
    | false =>
      simp only [readDollars]
      split
      next backslash =>
        subst backslash
        exact keeps rfl fun _ => ⟨by decide, fun line => absurd line.1 (by decide)⟩
      next letter =>
        have goesOn : false = escapesNext false c := (escapesNext_of_ne letter false).symm
        split
        next dollar =>
          subst dollar
          rw [Option.some.injEq, Prod.mk.injEq]
          constructor
          · rintro ⟨rfl, rfl⟩
            exact ⟨rfl, trivial, rfl⟩
          · rintro ⟨split, passed, -⟩
            cases body with
            | nil => exact ⟨rfl, (List.cons.inj split).2⟩
            | cons d inner =>
              obtain ⟨rfl, -⟩ := List.cons.inj split
              exact absurd (passed.1 rfl) (not_passes_dollar inner)
        next undollared =>
          split
          next stopped =>
            rw [Bool.and_eq_true, decide_eq_true_eq] at stopped
            refine iff_of_false (Option.some_ne_none _).symm ?_
            rintro ⟨split, passed, -⟩
            cases body with
            | nil => exact undollared (List.cons.inj split).1
            | cons d inner =>
              obtain ⟨rfl, behind⟩ := List.cons.inj split
              have whole : others = inner ++ '$' :: rest := behind
              rw [whole, startsBlankLine_dollar] at stopped
              exact (passes_cons.mp (passed.1 rfl)).2 stopped
          next unstopped =>
            rw [Bool.and_eq_true, decide_eq_true_eq] at unstopped
            exact keeps goesOn fun _ => ⟨undollared, unstopped⟩

/-! ## All bodies of a text -/

/-- The bodies of the inline math of a text that an answer is asked about, in their
order. -/
def askedBodies {σ : Type} (answer : σ → Text → σ × Text) (state : σ) (text : Text) : List Text :=
  Editor.dollars.notes answer (fun _ body => [body]) state text

/-- A text that can stand between the dollars of inline math. -/
structure IsInlineBody (body : Text) : Prop where
  nonempty : body ≠ []
  ends : escapesAfter false body = false
  escaped : ∀ before after, body = before ++ '$' :: after → escapesAfter false before = true
  unbroken : ∀ before blanks after, BlankLine body before blanks after →
    escapesAfter false before = true ∨ '\r' ∈ blanks

/-- The search passes over a body exactly if its dollars are escaped and its blank lines
are hidden from the search. -/
theorem everywhere_passes_iff {body : Text} :
    Everywhere Passes false body ↔
      (∀ before after, body = before ++ '$' :: after → escapesAfter false before = true) ∧
        ∀ before blanks after, BlankLine body before blanks after →
          escapesAfter false before = true ∨ '\r' ∈ blanks := by
  rw [everywhere_iff]
  constructor
  · intro passed
    constructor
    · intro before after split
      by_contra free
      exact not_passes_dollar after
        (passed before _ split (List.cons_ne_nil _ _) (Bool.not_eq_true _ ▸ free))
    · rintro before blanks after ⟨split, blank⟩
      by_contra hidden
      obtain ⟨free, unreturned⟩ := not_or.mp hidden
      refine (passed before _ split (List.cons_ne_nil _ _) (Bool.not_eq_true _ ▸ free)).2
        ⟨rfl, startsBlankLine_iff.mpr ⟨blanks, after, rfl, fun c member => ?_⟩⟩
      have listed := blank c member
      simp only [List.mem_cons, List.not_mem_nil, or_false] at listed
      rcases listed with rfl | rfl | rfl
      · rfl
      · rfl
      · exact absurd member unreturned
  · rintro ⟨dollars, lines⟩ before after split nonempty free
    obtain ⟨c, rest, rfl⟩ := List.exists_cons_of_ne_nil nonempty
    refine passes_cons.mpr ⟨?_, ?_⟩
    · rintro rfl
      rw [dollars before rest split] at free
      cases free
    · rintro ⟨rfl, starts⟩
      obtain ⟨spaces, behind, rfl, spaced⟩ := startsBlankLine_iff.mp starts
      have blank : ∀ c ∈ spaces, c = ' ' ∨ c = '\t' := fun c member => by
        simpa [Text.isSpaceOrTab] using spaced c member
      rcases lines before spaces behind ⟨split, fun c member => by
        rcases blank c member with rfl | rfl <;> decide⟩ with escaped | returned
      · rw [escaped] at free
        cases free
      · exact absurd (blank _ returned) (by decide)

/-- What every step of a rule keeps of the state, the edit keeps. -/
theorem editFrom_keeps {σ : Type} {rule : Rule σ} {holds : σ → Prop}
    (step : ∀ state cursor text, holds state → holds (rule state cursor text).1)
    {state : σ} (start : holds state) (cursor : Cursor) (covered : Nat) (text : Text) :
    holds (editFrom rule state cursor covered text).1 := by
  induction text generalizing state cursor covered with
  | nil => simpa using start
  | cons c rest inductionHypothesis =>
    cases covered with
    | succ covered => exact inductionHypothesis start _ _
    | zero =>
      have kept := step state cursor (c :: rest) start
      rw [editFrom]
      split
      next next silent =>
        rw [silent] at kept
        exact inductionHypothesis kept _ _
      next next edit offered =>
        rw [offered] at kept
        exact inductionHypothesis kept _ _

section Asked

variable {σ : Type} (answer : σ → Text → σ × Text) (state : σ)

/-- An answer is asked only about texts that can stand between dollars. -/
theorem isInlineBody_of_mem {text body : Text} (asked : body ∈ askedBodies answer state text) :
    IsInlineBody body := by
  let note : σ → Text → List Text := fun _ body => [body]
  have step (reached : σ × List Text) (cursor : Cursor) (text : Text)
      (all : ∀ body ∈ reached.2, IsInlineBody body) :
      ∀ body ∈ (dollarsRule (Editor.noting note answer) reached cursor text).1.2,
        IsInlineBody body := by
    cases text with
    | nil => exact all
    | cons c inside =>
      rw [dollarsRule]
      split
      · exact all
      split
      · exact all
      · exact all
      next body rest filled read =>
        obtain ⟨-, passed, ends⟩ := readDollars_eq_some_iff.mp read
        obtain ⟨escaped, unbroken⟩ := everywhere_passes_iff.mp passed
        intro other listed
        rcases List.mem_append.mp listed with earlier | last
        · exact all other earlier
        · obtain rfl := List.mem_singleton.mp last
          exact ⟨fun empty => filled empty, ends, escaped, unbroken⟩
  have start : ∀ body ∈ (state, ([] : List Text)).2, IsInlineBody body := List.forall_mem_nil _
  exact editFrom_keeps step start Cursor.start 0 text body asked

/-- Between dollars that stand alone, an answer is asked about such a text. -/
theorem askedBodies_dollars {body : Text} (inline : IsInlineBody body) :
    askedBodies answer state ('$' :: (body ++ ['$'])) = [body] := by
  have passed := everywhere_passes_iff.mpr ⟨inline.escaped, inline.unbroken⟩
  have read : readDollars false (body ++ ['$']) = some (body, []) :=
    readDollars_eq_some_iff.mpr ⟨rfl, passed, inline.ends⟩
  obtain ⟨c, others, rfl⟩ := List.exists_cons_of_ne_nil inline.nonempty
  let note : σ → Text → List Text := fun _ body => [body]
  have offered : dollarsRule (Editor.noting note answer) (state, []) Cursor.start
      ('$' :: (c :: others ++ ['$']) ++ []) =
        (((answer state (c :: others)).1, [c :: others]),
          some (Edit.upTo ('$' :: (c :: others ++ ['$']) ++ []) []
            (answer state (c :: others)).2)) := by
    rw [List.append_nil, dollarsRule, read]
    rfl
  have nonempty : '$' :: (c :: others ++ ['$']) ≠ [] := List.cons_ne_nil _ _
  have written := editFrom_replace nonempty offered
  rw [editFrom_nil, List.append_nil] at written
  exact congrArg (fun result => result.1.2) written

/-- An answer is asked about a body for some text exactly if the body is not empty, its
dollars are escaped inside it and its end is not, and each blank line in it stands
behind an escaped break or has a carriage return. -/
theorem exists_asked_iff (body : Text) :
    (∃ text, body ∈ askedBodies answer state text) ↔ IsInlineBody body := by
  constructor
  · rintro ⟨text, asked⟩
    exact isInlineBody_of_mem answer state asked
  · intro inline
    refine ⟨'$' :: (body ++ ['$']), ?_⟩
    rw [askedBodies_dollars answer state inline]
    exact List.mem_singleton_self body

end Asked

/-- A price, and a formula with an escaped dollar and a line break. -/
theorem exists_asked_escapedDollar :
    (∃ text, "x\\$\ny".toList ∈ askedBodies (fun (_ : Unit) body => ((), body)) () text) ∧
      askedBodies (fun (_ : Unit) body => ((), body)) () "\\$5, $x\\$\ny$, $z".toList =
        ["x\\$\ny".toList] := by
  have inline : IsInlineBody "x\\$\ny".toList := by
    obtain ⟨escaped, unbroken⟩ := everywhere_passes_iff.mp
      (by decide : Everywhere Passes false "x\\$\ny".toList)
    exact ⟨by decide, by decide, escaped, unbroken⟩
  exact ⟨(exists_asked_iff (fun (_ : Unit) body => ((), body)) () _).mpr inline, by decide⟩

/-- A blank line that ends in a carriage return, and one behind an escaped break, are
handed over between dollars. -/
theorem asked_hiddenLines :
    BlankLine "a\r\n\r\nb".toList "a\r".toList "\r".toList "b".toList ∧
      BlankLine "a\\\n\nb".toList "a\\".toList [] "b".toList ∧
      askedBodies (fun (_ : Unit) body => ((), body)) () "$a\r\n\r\nb$ $a\\\n\nb$".toList =
        ["a\r\n\r\nb".toList, "a\\\n\nb".toList] :=
  ⟨⟨by decide, by decide⟩, ⟨by decide, by decide⟩, by decide⟩

end LatexMarkdown.Scan
