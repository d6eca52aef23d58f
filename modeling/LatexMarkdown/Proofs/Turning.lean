import LatexMarkdown.Proofs.Absent
import LatexMarkdown.Proofs.Spelling
import LatexMarkdown.Proofs.Storing

/-!
# Editing piece by piece

A rule turns a piece of a text into another piece when it does so whatever follows.
What is put together from such pieces is edited piece by piece, the state handed
from each of them to the next.
-/

namespace LatexMarkdown

namespace Scan

section Turns

variable {σ : Type} {rule : Rule σ} {state next last : σ} {piece other written further : Text}

/-- Read from an unescaped position, a rule writes something in the place of a piece
and goes on behind it, at an unescaped position again. -/
def Turns (rule : Rule σ) (state : σ) (piece : Text) (next : σ) (written : Text) : Prop :=
  ∀ cursor rest, cursor.escaped = false →
    (cursor.advanceOver piece).escaped = false ∧
      editFrom rule state cursor 0 (piece ++ rest) =
        ((editFrom rule next (cursor.advanceOver piece) 0 rest).1,
          written ++ (editFrom rule next (cursor.advanceOver piece) 0 rest).2)

namespace Turns

theorem nil : Turns rule state [] state [] :=
  fun _ _ free => ⟨free, rfl⟩

/-- One piece after another. -/
theorem append (first : Turns rule state piece next written)
    (second : Turns rule next other last further) :
    Turns rule state (piece ++ other) last (written ++ further) := by
  intro cursor rest free
  obtain ⟨unescaped, here⟩ := first cursor (other ++ rest) free
  obtain ⟨ends, later⟩ := second (cursor.advanceOver piece) rest unescaped
  have advanced : cursor.advanceOver (piece ++ other) =
      (cursor.advanceOver piece).advanceOver other := List.foldl_append
  rw [List.append_assoc, here, later, advanced, List.append_assoc]
  exact ⟨ends, rfl⟩

/-- A text that is turned is edited into what it is turned into. -/
theorem edit_eq (turns : Turns rule state piece next written) :
    edit rule state piece = (next, written) := by
  have whole := (turns Cursor.start [] rfl).2
  rwa [List.append_nil, editFrom_nil, List.append_nil] at whole

/-- A piece that spells only other commands is kept. -/
theorem spelled {wanted : Text} (startsAt : rule.StartsAt ('\\' :: wanted)) {heads : List Text}
    (spells : Spells heads piece)
    (foreign : ∀ head ∈ heads, ¬ wanted <+: head ∧ ¬ head <+: wanted) :
    Turns rule state piece state piece := by
  have kept : ∀ suffix, suffix <:+ piece → ∀ cursor rest,
      editFrom rule state cursor 0 (suffix ++ rest) =
        ((editFrom rule state (cursor.advanceOver suffix) 0 rest).1,
          suffix ++ (editFrom rule state (cursor.advanceOver suffix) 0 rest).2) := by
    intro suffix within cursor rest
    induction suffix generalizing cursor with
    | nil => rfl
    | cons c others inductionHypothesis =>
      have silent : rule state cursor (c :: (others ++ rest)) = (state, none) :=
        startsAt state cursor _ (spells.not_prefix foreign within rest)
      rw [List.cons_append, editFrom_keep silent,
        inductionHypothesis ((List.suffix_cons c others).trans within)]
      rfl
  intro cursor rest free
  refine ⟨?_, kept piece (List.suffix_refl piece) cursor rest⟩
  -- No backslash ends the piece, since a head follows each of them.
  rcases List.eq_nil_or_concat piece with rfl | ⟨others, c, rfl⟩
  · exact free
  · rw [List.concat_eq_append] at spells ⊢
    refine Cursor.advanceOver_concat_escaped cursor others ?_
    rintro rfl
    obtain ⟨head, listed, starts⟩ := spells [] (List.suffix_append ..)
    rw [List.prefix_nil.mp starts] at listed
    exact (foreign [] listed).2 List.nil_prefix

/-- A piece for which the rule offers an edit of its own length is replaced. -/
theorem replace {c : Char} {others : Text} (different : c ≠ '\\')
    (offered : ∀ (cursor : Cursor) rest, cursor.escaped = false →
      rule state cursor (others ++ [c] ++ rest) =
        (next, some (Edit.upTo (others ++ [c] ++ rest) rest written))) :
    Turns rule state (others ++ [c]) next written := by
  intro cursor rest free
  exact ⟨Cursor.advanceOver_concat_escaped cursor others different,
    editFrom_replace (by simp) (offered cursor rest free)⟩

/-- A list of items is turned item by item. -/
theorem flatMap {α : Type} {write : α → Text} {step : σ → α → σ × α} {items : List α}
    (each : ∀ state, ∀ item ∈ items,
      Turns rule state (write item) (step state item).1 (write (step state item).2))
    (state : σ) :
    Turns rule state (items.flatMap write) (mapThread step state items).1
      ((mapThread step state items).2.flatMap write) := by
  induction items generalizing state with
  | nil => exact nil
  | cons item others inductionHypothesis =>
    have here := each state item (List.mem_cons_self ..)
    have later := inductionHypothesis
      (fun state other member => each state other (List.mem_cons_of_mem item member))
      (step state item).1
    rw [List.flatMap_cons]
    exact here.append later

/-- Where the state stays as it is, every item is turned by itself. -/
theorem flatMap_map {α : Type} {write : α → Text} {change : α → α} {items : List α}
    (each : ∀ item ∈ items, Turns rule state (write item) state (write (change item))) :
    Turns rule state (items.flatMap write) state ((items.map change).flatMap write) := by
  induction items with
  | nil => exact nil
  | cons item others inductionHypothesis =>
    rw [List.forall_mem_cons] at each
    rw [List.map_cons, List.flatMap_cons, List.flatMap_cons]
    exact each.1.append (inductionHypothesis each.2)

end Turns

/-- A text that the rule of a command turns at every depth is edited so. -/
theorem editCommand_of_turns {name : Text} {signature : Signature} {answer : Answer σ Arguments}
    (turns : ∀ depth, Turns (commandRule name signature
      (editCommandAt name signature answer depth) answer) state piece next written) :
    editCommand name signature answer state piece = (next, written) := by
  rw [editCommand]
  cases spelled : piece.length with
  | zero =>
    have empty : piece = [] := List.length_eq_zero_iff.mp spelled
    subst empty
    exact (turns 0).edit_eq
  | succ depth => exact (turns depth).edit_eq

end Turns

/-! ## The use of a command -/

/-- A command with one braced argument. -/
def use (name argument : Text) : Text :=
  '\\' :: (name ++ '{' :: (argument ++ ['}']))

/-- What is read as it stands between braces. -/
def IsArgument (text : Text) : Prop :=
  ∀ c ∈ text, c ∉ ['\\', '{', '}']

instance (text : Text) : Decidable (IsArgument text) :=
  List.decidableBAll (· ∉ ['\\', '{', '}']) text

theorem IsArgument.plain {text : Text} (isArgument : IsArgument text) : '\\' ∉ text :=
  fun member => isArgument _ member (by decide)

/-- A command in front of what follows. -/
theorem use_append (name argument rest : Text) :
    use name argument ++ rest = '\\' :: (name ++ '{' :: (argument ++ '}' :: rest)) := by
  simp [use]

/-- An argument stands in its braces up to the closing one. -/
theorem readBraced_of_isArgument {argument : Text} (isArgument : IsArgument argument)
    (rest : Text) : readBraced ('{' :: (argument ++ '}' :: rest)) = some (argument, rest) := by
  have general : readBracedRest 0 false (argument ++ '}' :: rest) = some (argument, rest) := by
    induction argument with
    | nil => rfl
    | cons c others inductionHypothesis =>
      rw [IsArgument, List.forall_mem_cons] at isArgument
      have plain := isArgument.1
      simp only [List.mem_cons, not_or] at plain
      rw [List.cons_append, readBracedRest, if_neg plain.1, if_neg plain.2.1, if_neg plain.2.2.1,
        inductionHypothesis isArgument.2]
      rfl
  exact general

/-- An enclosure is read up to its first closing character. -/
theorem readEnclosed_append (opening : Char) {closing : Char} {inner : Text}
    (absent : closing ∉ inner) (rest : Text) :
    readEnclosed opening closing (opening :: (inner ++ closing :: rest)) = some (inner, rest) := by
  have inside : ∀ c ∈ inner, decide (c ≠ closing) = true := fun c member =>
    decide_eq_true fun same => absent (same ▸ member)
  have taken : (inner ++ closing :: rest).takeWhile (· ≠ closing) = inner := by
    rw [List.takeWhile_append_of_pos inside, List.takeWhile_cons_of_neg (by simp), List.append_nil]
  have dropped : (inner ++ closing :: rest).dropWhile (· ≠ closing) = closing :: rest := by
    rw [List.dropWhile_append_of_pos inside, List.dropWhile_cons_of_neg (by simp)]
  rw [readEnclosed, if_pos rfl, dropped, taken]

/-- Without a closing character there is no enclosure. -/
theorem readEnclosed_of_not_mem (opening : Char) {closing : Char} {text : Text}
    (absent : closing ∉ text) : readEnclosed opening closing text = none := by
  cases text with
  | nil => rfl
  | cons c inside =>
    rw [List.mem_cons, not_or] at absent
    have unclosed : inside.dropWhile (· ≠ closing) = [] := by
      rw [List.dropWhile_eq_nil_iff]
      intro d member
      exact decide_eq_true (ne_of_mem_of_not_mem member absent.2)
    rw [readEnclosed, unclosed]
    exact ite_self none

/-- Where neither a blank nor an opening character stands, nothing is passed over. -/
theorem skipEnclosed_of_head? {opening closing : Char} {text : Text}
    (start : ∀ c, text.head? = some c → Text.isBlank c = false ∧ c ≠ opening) :
    skipEnclosed opening closing text = text := by
  have visible : Text.trimStart text = text :=
    Text.trimStart_of_head? fun c head => (start c head).1
  have unread : readEnclosed opening closing text = none := by
    cases text with
    | nil => rfl
    | cons c inside => exact if_neg (start c rfl).2
  rw [skipEnclosed, visible, unread]

section Use

variable {σ : Type} {state : σ} {name argument : Text}

/-- A use of a command is answered as a whole, if its argument is read as it stands and
has no further use of the command in it. -/
theorem Turns.use_of_braced
    (braced : ∀ rest, readBraced ('{' :: (argument ++ '}' :: rest)) = some (argument, rest))
    {maxOptions depth : Nat} {answer : Answer σ Arguments}
    (kept : editCommandAt name ⟨true, maxOptions, 1⟩ answer depth state argument =
      (state, argument))
    {next : σ} {written : Text}
    (answered : answer state ⟨false, [], [argument]⟩ = (next, some written)) :
    Turns (commandRule name ⟨true, maxOptions, 1⟩
      (editCommandAt name ⟨true, maxOptions, 1⟩ answer depth) answer) state
      (use name argument) next written := by
  have spelled : Scan.use name argument = ('\\' :: (name ++ '{' :: argument)) ++ ['}'] := by
    simp [Scan.use]
  rw [spelled]
  refine .replace (by decide) fun cursor rest free => ?_
  rw [← spelled]
  have after : afterCommand? name (Scan.use name argument ++ rest) =
      some ('{' :: (argument ++ '}' :: rest)) := by
    rw [use_append, afterCommand?, if_pos rfl, Text.dropFront?_append]
    rfl
  have inner : mapThread (editCommandAt name ⟨true, maxOptions, 1⟩ answer depth) state [argument] =
      (state, [argument]) := by
    simp only [mapThread, kept]
  simp only [commandRule, free, after, readArguments_of_braced (braced rest) true, inner, answered,
    byAnswer_some]
  rfl

/-- A use of a command is answered as a whole. -/
theorem Turns.use (isArgument : IsArgument argument) {maxOptions depth : Nat}
    {answer : Answer σ Arguments} {next : σ} {written : Text}
    (answered : answer state ⟨false, [], [argument]⟩ = (next, some written)) :
    Turns (commandRule name ⟨true, maxOptions, 1⟩
      (editCommandAt name ⟨true, maxOptions, 1⟩ answer depth) answer) state
      (use name argument) next written :=
  use_of_braced (readBraced_of_isArgument isArgument)
    (editCommandAt_of_plain isArgument.plain ..) answered

/-- A use of a command spells the command. -/
theorem spells_use (bare : '\\' ∉ name) (isArgument : IsArgument argument) :
    Spells [name ++ ['{']] (use name argument) := by
  have spelled : use name argument = '\\' :: ((name ++ ['{']) ++ (argument ++ ['}'])) := by
    simp [use]
  rw [spelled]
  exact .command (List.mem_singleton_self _) (by simp [bare, isArgument.plain])

end Use

end Scan

end LatexMarkdown
