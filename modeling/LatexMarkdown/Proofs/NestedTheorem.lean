import LatexMarkdown.Proofs.CodeOutput
import LatexMarkdown.Proofs.NestedEnvironment
import LatexMarkdown.Proofs.PlainTable
import LatexMarkdown.Proofs.Unescaped

/-!
# What becomes of an environment inside another one

The inner environment is converted first, and the outer one is written around what it
became. An upright body holds that as it is. A body in italics is set line by line, and
the lines of the inner element are among its lines: those without a form of their own
are set in italics once more.
-/

namespace LatexMarkdown

open Scan

namespace Text

/-! ## Trimming around a part -/

theorem dropWhile_infix {dropped : Char → Bool} {part text : Text} (inside : part <:+: text) :
    part.dropWhile dropped <:+: text.dropWhile dropped := by
  induction text generalizing part with
  | nil => rw [List.infix_nil.mp inside]
  | cons c others inductionHypothesis =>
    rcases List.infix_cons_iff.mp inside with start | later
    · cases part with
      | nil => exact List.nil_infix
      | cons d more =>
        obtain ⟨rfl, front⟩ := List.cons_prefix_cons.mp start
        rw [List.dropWhile_cons, List.dropWhile_cons]
        split
        · exact inductionHypothesis front.isInfix
        · exact start.isInfix
    · rw [List.dropWhile_cons]
      split
      · exact inductionHypothesis later
      · exact (List.dropWhile_suffix _).isInfix.trans (later.trans (List.suffix_cons _ _).isInfix)

/-- What is left of a part is in what is left of the text. -/
theorem trim_infix_trim {part text : Text} (inside : part <:+: text) :
    trim part <:+: trim text := by
  have start : trimStart part <:+: trimStart text := dropWhile_infix inside
  rw [trim, trim, trimEnd_eq, trimEnd_eq, List.reverse_infix]
  exact dropWhile_infix (List.reverse_infix.mpr start)

/-- Only what stands before a visible start is trimmed. -/
theorem trimStart_append {block : Text} {first : Char} (starts : block.head? = some first)
    (visible : isBlank first = false) (front behind : Text) :
    trimStart (front ++ (block ++ behind)) = trimStart front ++ (block ++ behind) := by
  obtain ⟨others, rfl⟩ := List.head?_eq_some_iff.mp starts
  have kept : ((first :: others) ++ behind).dropWhile isBlank = (first :: others) ++ behind :=
    List.dropWhile_cons_of_neg (by rw [visible]; exact Bool.false_ne_true)
  rw [trimStart, trimStart, List.dropWhile_append, kept]
  split
  next empty => rw [List.isEmpty_iff.mp empty, List.nil_append]
  · rfl

/-- Around a block with visible ends only what stands before and behind it is trimmed. -/
theorem trim_between {block : Text} {first last : Char} (starts : block.head? = some first)
    (ends : block.getLast? = some last) (visible : isBlank first = false ∧ isBlank last = false)
    (front behind : Text) :
    trim (front ++ (block ++ behind)) = trimStart front ++ (block ++ trimEnd behind) := by
  have ending := trimStart_append (List.head?_reverse.trans ends) visible.2 behind.reverse
    (trimStart front).reverse
  rw [trim, trimStart_append starts visible.1, trimEnd_eq, trimEnd_eq, List.reverse_append,
    List.reverse_append, List.append_assoc, ending]
  simp only [List.reverse_append, List.reverse_reverse, List.append_assoc]

section Paragraph

variable {block : Text} {first last : Char} (starts : block.head? = some first)
  (ends : block.getLast? = some last) (visible : isBlank first = false ∧ isBlank last = false)

include starts ends visible

/-- A paragraph is trimmed to the block in it. -/
theorem trim_paragraph : trim (Html.paragraph block) = block := by
  rw [Html.paragraph, List.append_assoc, trim_between starts ends visible]
  exact List.append_nil block

/-- In a trimmed text a paragraph stands in lines of its own. -/
theorem exists_trim_paragraph (before after : Text) :
    ∃ front behind, trim (before ++ (Html.paragraph block ++ after)) =
      front ++ (block ++ behind) ∧ (front = [] ∨ front.getLast? = some '\n') ∧
        (behind = [] ∨ behind.head? = some '\n') := by
  refine ⟨trimStart (before ++ "\n\n".toList), trimEnd ("\n\n".toList ++ after), ?_, ?_, ?_⟩
  · rw [← trim_between starts ends visible, Html.paragraph]
    simp only [List.append_assoc]
  · obtain ⟨dropped, whole⟩ : trimStart (before ++ "\n\n".toList) <:+ before ++ "\n\n".toList :=
      List.dropWhile_suffix _
    refine (eq_or_ne _ []).imp_right fun nonempty => ?_
    have last := congrArg List.getLast? whole
    rw [List.getLast?_append_of_ne_nil _ nonempty, List.getLast?_append] at last
    exact last
  · obtain ⟨dropped, whole⟩ := trimEnd_front ("\n\n".toList ++ after)
    refine (eq_or_ne _ []).imp_right fun nonempty => ?_
    have first := congrArg List.head? whole
    rw [List.head?_append_of_ne_nil _ nonempty] at first
    exact first

end Paragraph

/-! ## The lines of a part -/

/-- Complete lines are lines by themselves. -/
theorem lines_append {before : Text} (complete : before = [] ∨ before.getLast? = some '\n')
    (after : Text) : lines (before ++ after) = lines before ++ lines after := by
  rw [lines, linesWithBreaks_append complete, List.map_append]
  rfl

/-- The break behind a visible end opens no further line. -/
theorem lines_break {block : Text} {last : Char} (ends : block.getLast? = some last)
    (visible : isBlank last = false) : lines (block ++ ['\n']) = lines block := by
  have broken : last ≠ '\n' ∧ last ≠ '\r' := by
    constructor <;> rintro rfl <;> exact absurd visible (by decide)
  have final : (lastLine block).getLast? = some last := by
    obtain ⟨others, rfl⟩ := List.getLast?_eq_some_iff.mp ends
    rw [lastLine, List.rtakeWhile_concat, if_pos (decide_eq_true broken.1), List.getLast?_concat]
  have single : '\n' ∉ lastLine block := not_mem_lastLine block
  have nonempty : lastLine block ≠ [] := by
    intro empty
    rw [empty] at final
    cases final
  have line : lines (lastLine block ++ ['\n']) = lines (lastLine block) := by
    have kept : withoutBreak (lastLine block ++ ['\n']) = lastLine block := by
      have other : some last ≠ some '\r' := mt Option.some.inj broken.2
      rw [withoutBreak, List.getLast?_concat, if_pos rfl, List.dropLast_concat, final, if_neg other]
    rw [Block.lines_of_single single nonempty, lines, linesWithBreaks_line single, List.map_cons,
      kept]
    rfl
  rw [← completeLines_append_lastLine block, List.append_assoc,
    lines_append (getLast?_completeLines block), lines_append (getLast?_completeLines block), line]

/-- Consecutive pieces stand together in the joined pieces. -/
theorem infix_joinWith_append (separator : Text) {middle : List Text} (nonempty : middle ≠ [])
    (first last : List Text) :
    joinWith separator middle <:+: joinWith separator (first ++ (middle ++ last)) := by
  have front : joinWith separator middle <:+: joinWith separator (middle ++ last) := by
    by_cases empty : last = []
    · rw [empty, List.append_nil]
    · rw [joinWith_append separator nonempty empty]
      exact (List.prefix_append _ _).isInfix
  by_cases empty : first = []
  · rw [empty, List.nil_append]
    exact front
  · rw [joinWith_append separator empty (List.append_ne_nil_of_left_ne_nil nonempty last)]
    exact front.trans ((List.suffix_append _ _).trans (List.suffix_append _ _)).isInfix

end Text

namespace Block

/-! ## Names -/

/-- A name that is seen in an opening marker: letters with at most one star. -/
def IsSeen (name : Text) : Prop :=
  name.takeWhile Char.isAlpha ≠ [] ∧ name.dropWhile Char.isAlpha ∈ [[], ['*']]

instance (name : Text) : Decidable (IsSeen name) :=
  inferInstanceAs (Decidable (_ ∧ _))

/-- The name in an opening marker is read exactly when it can be seen. -/
theorem readOpeningName_beginMarker {name : Text} (closed : '}' ∉ name) (rest : Text) :
    readOpeningName (beginMarker name ++ rest) = if IsSeen name then some name else none := by
  have opened : Text.dropFront? ("\\begin".toList ++ ['{']) (beginMarker name ++ rest) =
      some (name ++ '}' :: rest) := by
    have spelled : beginMarker name ++ rest =
        ("\\begin".toList ++ ['{']) ++ (name ++ '}' :: rest) := by
      simp only [beginMarker_eq, List.append_assoc, List.cons_append, List.nil_append]
    rw [spelled, Text.dropFront?_append]
  have dropped : (name ++ '}' :: rest).dropWhile Char.isAlpha =
      name.dropWhile Char.isAlpha ++ '}' :: rest := by
    rw [List.dropWhile_append]
    split
    next empty =>
      rw [List.isEmpty_iff.mp empty]
      rfl
    · rfl
  have taken : (name ++ '}' :: rest).takeWhile Char.isAlpha = name.takeWhile Char.isAlpha := by
    rw [List.takeWhile_append]
    split
    next whole =>
      have all := (List.takeWhile_prefix Char.isAlpha).eq_of_length whole
      rw [all, List.takeWhile_cons_of_neg (by decide), List.append_nil]
    · rfl
  have unclosed : '}' ∉ name.dropWhile Char.isAlpha :=
    fun member => closed ((List.dropWhile_suffix _).subset member)
  have parts := List.takeWhile_append_dropWhile (p := Char.isAlpha) (l := name)
  simp only [readOpeningName, opened, Option.bind_eq_bind, Option.bind_some, taken, dropped,
    List.isEmpty_iff]
  by_cases empty : name.takeWhile Char.isAlpha = []
  · rw [if_pos empty, if_neg fun seen => seen.1 empty]
  · have seen : IsSeen name ↔ name.dropWhile Char.isAlpha ∈ [[], ['*']] := and_iff_right empty
    rw [if_neg empty, if_congr seen rfl rfl]
    generalize name.takeWhile Char.isAlpha = letters at parts
    generalize name.dropWhile Char.isAlpha = others at parts unclosed
    subst parts
    -- Behind the letters there is the closing brace, a star before it, or another character.
    rcases others with _ | ⟨c, _ | ⟨d, more⟩⟩
    · simp
    · rw [List.mem_singleton] at unclosed
      by_cases star : c = '*'
      · simp [star]
      · simp [star, Ne.symm unclosed]
    · simp only [List.mem_cons, not_or] at unclosed
      simp [Ne.symm unclosed.1, Ne.symm unclosed.2.1]

/-! ## The conversion of one environment -/

/-- The element that an environment becomes, if its name is seen and known and its
arguments are complete. -/
def element? (context : TheoremContext) (name body : Text) : Option Text :=
  if IsSeen name then do
    let environment <- findTheorem? context.defined name
    let required := if environment.name = "thebibliography".toList then 1 else 0
    let (arguments, inside) <- readArguments ⟨false, 1, required⟩ body
    some (environment.render context.options context.store (arguments.option? 0) inside)
  else none

section Conversion

variable {context : TheoremContext}

/-- Where no environment opens, none is converted. -/
theorem theoremRule_unopened {text : Text} (unopened : ¬ Document.Inset.environmentOpening <+: text)
    (nested : Text → Text) (cursor : Cursor) :
    theoremRule context nested () cursor text = ((), none) := by
  have missing : Text.dropFront? ("\\begin".toList ++ ['{']) text = none :=
    Text.dropFront?_eq_none_iff.mpr unopened
  rw [theoremRule, readOpeningName, missing]
  rfl

/-- A text in which no environment opens is passed over. -/
theorem editFrom_of_unopened {text : Text}
    (unopened : ¬ Document.Inset.environmentOpening <:+: text) (nested : Text → Text)
    (cursor : Cursor) : editFrom (theoremRule context nested) () cursor 0 text = ((), text) :=
  editFrom_of_silent_within (fun cursor _ within _ =>
    theoremRule_unopened (fun start => unopened (start.isInfix.trans within.isInfix)) nested cursor)
    cursor

/-- A text in which no environment opens stays as it is, at any depth. -/
theorem convertTheoremsAt_of_unopened {text : Text}
    (unopened : ¬ Document.Inset.environmentOpening <:+: text) (depth : Nat) :
    convertTheoremsAt context depth text = text := by
  cases depth with
  | zero => rfl
  | succ depth =>
    rw [convertTheoremsAt, edit, editFrom_of_unopened unopened]

variable {name body behind : Text} (isName : IsEnvironmentName name) (isSealed : IsSealed body)
  (isQuiet : IsQuiet behind)

include isName isSealed isQuiet

/-- What stands behind an environment does not change what it becomes. -/
theorem theoremRule_enclosed {cursor : Cursor} (unescaped : cursor.escaped = false) (depth : Nat) :
    theoremRule context (convertTheoremsAt context depth) () cursor (enclosed name body ++ behind) =
      ((), (element? context name body).map (Edit.upTo (enclosed name body ++ behind) behind)) := by
  have spelled : enclosed name body ++ behind =
      beginMarker name ++ (body ++ (endMarker name ++ behind)) := by
    rw [enclosed, List.append_assoc, List.append_assoc]
  have opened := readOpeningName_beginMarker (isName.not_mem (by decide) : '}' ∉ name)
    (body ++ (endMarker name ++ behind))
  rw [← spelled] at opened
  rw [theoremRule, opened, element?]
  by_cases seen : IsSeen name
  · simp only [if_pos seen, Option.bind_eq_bind, Option.bind_some]
    cases findTheorem? context.defined name with
    | none => rfl
    | some environment =>
      simp only [Option.bind_some, readEnvironment, unescaped, Bool.false_eq_true, if_false,
        spelled, Text.dropFront?_append, Option.bind_eq_bind,
        readArguments_body (isQuiet.endsNothing isName)]
      generalize (if environment.name = "thebibliography".toList then 1 else 0) = required
      cases read : readArguments ⟨false, 1, required⟩ body with
      | none => rfl
      | some pair =>
        obtain ⟨arguments, inside⟩ := pair
        have within : inside <:+ body := readArguments_suffix read
        have insideSealed : IsSealed inside :=
          ⟨fun occurs => isSealed.unopened (occurs.trans within.isInfix),
            fun occurs => isSealed.unclosed (occurs.trans within.isInfix)⟩
        simp only [Option.map_some, Option.bind_some,
          readBody_enclosed (isName.not_mem (by decide)) insideSealed,
          convertTheoremsAt_of_unopened insideSealed.unopened]
  · simp only [if_neg seen]
    rfl

/-- An environment becomes the same wherever it stands, and what is behind it stays. -/
theorem editFrom_theoremRule {cursor : Cursor} (unescaped : cursor.escaped = false) (depth : Nat) :
    (editFrom (theoremRule context (convertTheoremsAt context depth)) () cursor 0
      (enclosed name body ++ behind)).2 =
        (element? context name body).getD (enclosed name body) ++ behind := by
  have bare : '\\' ∉ name := isName.not_mem (by decide)
  have offered : theoremRule context (convertTheoremsAt context depth) () cursor
      (enclosed name body ++ behind) = _ :=
    theoremRule_enclosed isName isSealed isQuiet unescaped depth
  cases found : element? context name body with
  | some element =>
    rw [found, Option.map_some] at offered
    have nonempty : enclosed name body ≠ [] := List.cons_ne_nil _ _
    rw [editFrom_replace nonempty offered, editFrom_of_unopened isQuiet.unopened, Option.getD_some]
  | none =>
    rw [found, Option.map_none] at offered
    obtain ⟨word, marker, plain⟩ := isMarker_beginMarker bare
    have apart : ¬ Document.Inset.environmentOpening <+: endMarker name ∧
        ¬ endMarker name <+: Document.Inset.environmentOpening := by
      refine ⟨fun start => not_prefix_endMarker name [] (by rwa [List.append_nil]), fun start => ?_⟩
      exact endMarker_not_prefix name [] [] (start.trans ⟨['}'], rfl⟩)
    -- Behind its first backslash nothing opens in the environment.
    have later : ¬ Document.Inset.environmentOpening <:+:
        word ++ (body ++ (endMarker name ++ behind)) := by
      intro occurs
      have inside := isMarker_environmentOpening.infix_of_infix_word plain occurs
      rcases isMarker_environmentOpening.infix_append_marker (isMarker_endMarker bare) apart inside
        with bodied | followed
      · exact isSealed.unopened bodied
      · exact isQuiet.unopened followed
    have spelled : enclosed name body ++ behind =
        '\\' :: (word ++ (body ++ (endMarker name ++ behind))) := by
      rw [enclosed, marker]
      simp only [List.append_assoc, List.cons_append]
    rw [spelled] at offered ⊢
    rw [editFrom_keep offered, editFrom_of_unopened later, Option.getD_none, ← spelled]

omit isQuiet in
/-- An environment by itself becomes its element, or it stays. -/
theorem convertTheorems_enclosed : convertTheorems context (enclosed name body) =
    (element? context name body).getD (enclosed name body) := by
  have whole : (editFrom (theoremRule context _) () Cursor.start 0 (enclosed name body ++ [])).2 =
      _ ++ [] :=
    editFrom_theoremRule isName isSealed isQuiet_nil rfl ((enclosed name body).length - 1)
  rw [List.append_nil, List.append_nil] at whole
  exact whole

/-- An environment in a text is converted as it is by itself. -/
theorem convertTheoremsAt_within {before : Text} (plain : '\\' ∉ before) (depth : Nat) :
    convertTheoremsAt context (depth + 1) (before ++ (enclosed name body ++ behind)) =
      before ++ (convertTheorems context (enclosed name body) ++ behind) := by
  have silent : ∀ cursor suffix, suffix <:+ before → suffix ≠ [] →
      theoremRule context (convertTheoremsAt context depth) () cursor
        (suffix ++ (enclosed name body ++ behind)) = ((), none) := by
    intro cursor suffix within nonempty
    exact theoremRule_unopened (isMarker_environmentOpening.not_prefix_inside
      (fun member => plain (within.subset member)) nonempty _) _ cursor
  rw [convertTheoremsAt, edit, editFrom_pass silent, editFrom_theoremRule isName isSealed isQuiet
    (Cursor.advanceOver_escaped plain rfl), convertTheorems_enclosed isName isSealed]

end Conversion

/-! ## An environment inside another one -/

/-- An environment whose body starts with no argument is converted if its name is seen and
its style needs none. -/
def IsConverted (name : Text) (style : Theorem) : Prop :=
  IsSeen name ∧ style.name ≠ "thebibliography".toList

instance (name : Text) (style : Theorem) : Decidable (IsConverted name style) :=
  inferInstanceAs (Decidable (_ ∧ _))

section Nested

variable {context : TheoremContext} {style : Theorem} {outer inner before body after : Text}
  (outerName : IsEnvironmentName outer) (innerName : IsEnvironmentName inner)
  (known : findTheorem? context.defined outer = some style)
  (commandless : IsCommandless before ∧ IsCommandless after) (isSealed : IsSealed body)

/-- Behind the opening marker of the outer environment stands a text without commands, and
then a command. -/
theorem exists_enclosed_eq (outer inner before body after : Text) :
    ∃ rest, enclosed outer (before ++ (enclosed inner body ++ after)) =
      beginMarker outer ++ (before ++ '\\' :: rest) := by
  refine ⟨(beginMarker inner).tail ++ (body ++ (endMarker inner ++ (after ++ endMarker outer))), ?_⟩
  have opening : '\\' :: (beginMarker inner).tail = beginMarker inner := rfl
  simp only [enclosed, List.append_assoc, ← List.cons_append, opening]

include outerName known commandless

/-- An outer environment that is not converted is not replaced. -/
theorem theoremRule_unconverted (other : ¬ IsConverted outer style) (nested : Text → Text)
    (cursor : Cursor) :
    theoremRule context nested () cursor
      (enclosed outer (before ++ (enclosed inner body ++ after))) = ((), none) := by
  obtain ⟨rest, spelled⟩ := exists_enclosed_eq outer inner before body after
  rw [theoremRule, spelled, readOpeningName_beginMarker (outerName.not_mem (by decide))]
  by_cases seen : IsSeen outer
  · have argued : style.name = "thebibliography".toList := by
      by_contra different
      exact other ⟨seen, different⟩
    simp only [if_pos seen, Option.bind_eq_bind, Option.bind_some, known, if_pos argued,
      readEnvironment, Text.dropFront?_append, readArguments_commandless commandless.1,
      Nat.one_ne_zero, if_false, Option.bind_none, ite_self]
  · simp only [if_neg seen]
    rfl

include innerName isSealed

/-- An outer environment that is converted is written around its converted body. -/
theorem theoremRule_converted (converted : IsConverted outer style) (nested : Text → Text) :
    theoremRule context nested () Cursor.start
      (enclosed outer (before ++ (enclosed inner body ++ after))) =
        ((), some (Edit.upTo (enclosed outer (before ++ (enclosed inner body ++ after))) []
          (style.render context.options context.store none
            (nested (before ++ (enclosed inner body ++ after)))))) := by
  have ends := readBody_nested outerName innerName (commandless.1.not_mem (by decide)) isSealed
    commandless.2.isSealed []
  have whole : enclosed outer (before ++ (enclosed inner body ++ after)) = beginMarker outer ++
      (before ++ (enclosed inner body ++ (after ++ (endMarker outer ++ [])))) := by
    rw [enclosed]
    simp only [List.append_assoc, List.append_nil]
  obtain ⟨rest, spelled⟩ := exists_enclosed_eq outer inner before body after
  have inside : before ++ (enclosed inner body ++ (after ++ (endMarker outer ++ []))) =
      before ++ '\\' :: rest :=
    List.append_cancel_left (whole.symm.trans spelled)
  have unargued := readArguments_commandless commandless.1 0 rest
  rw [← inside, if_pos rfl] at unargued
  rw [theoremRule, whole, readOpeningName_beginMarker (outerName.not_mem (by decide)),
    if_pos converted.1]
  simp only [Option.bind_eq_bind, Option.bind_some, known, converted.2, if_false,
    readEnvironment, Cursor.start, Bool.false_eq_true, Text.dropFront?_append, unargued, ends]
  rfl

/-- The outer environment becomes the element of its converted body. -/
theorem convertTheoremsAt_converted (converted : IsConverted outer style) (depth : Nat) :
    convertTheoremsAt context (depth + 2)
      (enclosed outer (before ++ (enclosed inner body ++ after))) =
        style.render context.options context.store none
          (before ++ (convertTheorems context (enclosed inner body) ++ after)) := by
  have quiet : IsQuiet after := by
    have nothing := isQuiet_nil.append commandless.2
    rwa [List.append_nil] at nothing
  have offered := theoremRule_converted outerName innerName known commandless isSealed converted
    (convertTheoremsAt context (depth + 1))
  have nonempty : enclosed outer (before ++ (enclosed inner body ++ after)) ≠ [] :=
    List.cons_ne_nil _ _
  rw [convertTheoremsAt_within innerName isSealed quiet (commandless.1.not_mem (by decide)),
    ← List.append_nil (enclosed outer _)] at offered
  rw [convertTheoremsAt, edit, ← List.append_nil (enclosed outer _),
    editFrom_replace nonempty offered, editFrom_nil, List.append_nil]

/-- The markers of the outer environment stay around its converted body. -/
theorem convertTheoremsAt_unconverted (other : ¬ IsConverted outer style) (depth : Nat) :
    convertTheoremsAt context (depth + 1)
      (enclosed outer (before ++ (enclosed inner body ++ after))) =
        enclosed outer (before ++ (convertTheorems context (enclosed inner body) ++ after)) := by
  have plain : '\\' ∉ before := commandless.1.not_mem (by decide)
  have offered (cursor : Cursor) : theoremRule context (convertTheoremsAt context depth) () cursor
      (enclosed outer (before ++ (enclosed inner body ++ after))) = ((), none) :=
    theoremRule_unconverted outerName known commandless other _ cursor
  have around (text : Text) : enclosed outer (before ++ (text ++ after)) =
      (beginMarker outer ++ before) ++ (text ++ (after ++ (endMarker outer ++ []))) := by
    rw [enclosed]
    simp only [List.append_assoc, List.append_nil]
  rw [around] at offered ⊢
  have silent : ∀ cursor suffix, suffix <:+ beginMarker outer ++ before → suffix ≠ [] →
      theoremRule context (convertTheoremsAt context depth) () cursor
        (suffix ++ (enclosed inner body ++ (after ++ (endMarker outer ++ [])))) = ((), none) := by
    intro cursor suffix within nonempty
    obtain ⟨word, marker, wordPlain⟩ :=
      isMarker_beginMarker (outerName.not_mem (by decide) : '\\' ∉ outer)
    rw [marker, List.cons_append] at within
    rcases List.suffix_cons_iff.mp within with rfl | inside
    · rw [← List.cons_append, ← marker]
      exact offered cursor
    · have free : '\\' ∉ suffix := fun member =>
        (List.mem_append.mp (inside.subset member)).elim wordPlain plain
      exact theoremRule_unopened
        (isMarker_environmentOpening.not_prefix_inside free nonempty _) _ cursor
  have unescaped : (Cursor.start.advanceOver (beginMarker outer ++ before)).escaped = false := by
    rw [Cursor.advanceOver_append, beginMarker_eq]
    exact Cursor.advanceOver_escaped plain (Cursor.advanceOver_concat_escaped _ _ (by decide))
  rw [convertTheoremsAt, edit, editFrom_pass silent, editFrom_theoremRule innerName isSealed
    ((isQuiet_nil.endMarker outerName).append commandless.2) unescaped,
    ← convertTheorems_enclosed innerName isSealed, around]

/-- The inner environment is converted as it is by itself, and the outer one is written
around the result or stays around it. -/
theorem convertTheorems_around :
    convertTheorems context (enclosed outer (before ++ (enclosed inner body ++ after))) =
      if IsConverted outer style then
        style.render context.options context.store none
          (before ++ (convertTheorems context (enclosed inner body) ++ after))
      else enclosed outer (before ++ (convertTheorems context (enclosed inner body) ++ after)) := by
  obtain ⟨depth, deep⟩ : ∃ depth,
      (enclosed outer (before ++ (enclosed inner body ++ after))).length = depth + 2 :=
    ⟨_, rfl⟩
  rw [convertTheorems, deep]
  split
  next converted =>
    exact convertTheoremsAt_converted outerName innerName known commandless isSealed converted depth
  next other =>
    exact convertTheoremsAt_unconverted outerName innerName known commandless isSealed other
      (depth + 1)

end Nested

/-! ## The block of an environment -/

/-- A block in a body of its own lines is set in italics by itself. -/
theorem italicize_block {block front behind : Text} {last : Char}
    (ends : block.getLast? = some last) (visible : Text.isBlank last = false)
    (complete : front = [] ∨ front.getLast? = some '\n')
    (broken : behind = [] ∨ behind.head? = some '\n') (store : FragmentStore) :
    italicize store block <:+: italicize store (front ++ (block ++ behind)) := by
  have filled : Text.lines block ≠ [] := by
    intro empty
    have pieces := Text.flatten_linesWithBreaks block
    rw [List.map_eq_nil_iff.mp empty] at pieces
    rw [← pieces] at ends
    cases ends
  obtain ⟨others, later⟩ : ∃ others, Text.lines (block ++ behind) = Text.lines block ++ others := by
    rcases broken with rfl | head
    · exact ⟨[], by rw [List.append_nil, List.append_nil]⟩
    · obtain ⟨rest, rfl⟩ := List.head?_eq_some_iff.mp head
      refine ⟨Text.lines rest, ?_⟩
      rw [List.append_cons, Text.lines_append (.inr List.getLast?_concat),
        Text.lines_break ends visible]
  rw [italicize, italicize, Text.lines_append complete, later, List.map_append, List.map_append]
  exact Text.infix_joinWith_append ['\n'] (mt List.map_eq_nil_iff.mp filled) _ _

/-- Only bodies that are upright end a proof. -/
theorem italic_of_proof {defined : KeyedList Text} {name : Text} {style : Theorem}
    (known : findTheorem? defined name = some style) (proof : style.name = "proof".toList) :
    style.italic = false := by
  simp only [findTheorem?] at known
  split at known
  next built found =>
    obtain rfl := Option.some.inj known
    dsimp only at proof
    have upright : KeyedList.find? theoremStyles "proof".toList =
        some ⟨"Demostración", "gray", false⟩ := by decide
    rw [proof, upright] at found
    obtain rfl := Option.some.inj found
    rfl
  next unstyled =>
    obtain ⟨label, -, rfl⟩ := Option.map_eq_some_iff.mp known
    dsimp only at proof
    rw [proof] at unstyled
    exact absurd unstyled (by decide)

/-- Outside a preview an element holds the content of its environment. -/
theorem content_infix_render {options : Options} (shown : options.preview = false)
    (style : Theorem) (store : FragmentStore) (title : Option Text) (body : Text) :
    style.content store (Text.trim body) <:+: style.render options store title body := by
  have headed (heading content : Text) : content <:+: withHeading store heading content := by
    rw [withHeading]
    split
    · exact List.infix_refl _
    · split
      next empty =>
        rw [List.isEmpty_iff.mp empty]
        exact List.nil_infix
      · split
        · exact (List.suffix_append _ _).isInfix
        · exact ((List.suffix_cons _ _).trans (List.suffix_append _ _)).isInfix
  have paragraph (content : Text) : content <:+: Html.paragraph content := ⟨_, _, rfl⟩
  have element (opening content closing : Text) : content <:+: opening ++ content ++ closing :=
    ⟨_, _, rfl⟩
  simp only [Theorem.render, shown, Bool.false_eq_true, if_false]
  exact (headed (style.heading title) _).trans
    ((paragraph _).trans ((element _ _ _).trans (paragraph _)))

/-- The element of an environment is a block between paragraph breaks. -/
theorem exists_block {context : TheoremContext} (shown : context.options.preview = false)
    {name body element : Text} (found : element? context name body = some element) :
    ∃ block, element = Html.paragraph block ∧ block.head? = some '<' ∧
      block.getLast? = some '>' := by
  rw [element?] at found
  split at found
  next seen =>
    simp only [Option.bind_eq_bind, Option.bind_eq_some_iff] at found
    obtain ⟨style, -, pair, -, written⟩ := found
    simp only [Theorem.render, shown, Bool.false_eq_true, if_false, Option.some.injEq] at written
    exact ⟨_, written.symm, rfl, by rw [List.getLast?_append]; rfl⟩
  next => cases found

section Nested

variable {context : TheoremContext} {style : Theorem} {outer inner before body after : Text}
  (shown : context.options.preview = false)

include shown

/-- An upright body holds what is in it. -/
theorem infix_render_of_upright (upright : style.italic = false) (title : Option Text)
    (part : Text) : Text.trim part <:+:
      style.render context.options context.store title (before ++ (part ++ after)) := by
  have within : part <:+: before ++ (part ++ after) := ⟨before, after, List.append_assoc ..⟩
  have kept : Text.trim (before ++ (part ++ after)) <:+:
      style.content context.store (Text.trim (before ++ (part ++ after))) := by
    rw [Theorem.content, upright, if_neg Bool.false_ne_true]
    split
    · rw [Text.trim, Text.trimEnd_trimEnd]
      exact (List.prefix_append _ _).isInfix
    · exact List.infix_refl _
  exact (Text.trim_infix_trim within).trans (kept.trans (content_infix_render shown ..))

/-- A body in italics holds the element of an environment with its lines in italics. -/
theorem infix_render_of_italic {name element : Text}
    (known : findTheorem? context.defined name = some style) (italic : style.italic = true)
    (found : element? context inner body = some element) (title : Option Text) :
    italicize context.store (Text.trim element) <:+:
      style.render context.options context.store title (before ++ (element ++ after)) := by
  obtain ⟨block, rfl, starts, ends⟩ := exists_block shown found
  have visible : Text.isBlank '<' = false ∧ Text.isBlank '>' = false := by decide
  have notProof : style.name ≠ "proof".toList := by
    intro proof
    rw [italic_of_proof known proof] at italic
    exact Bool.false_ne_true italic
  obtain ⟨front, behind, trimmed, complete, broken⟩ :=
    Text.exists_trim_paragraph starts ends visible before after
  have content : style.content context.store (front ++ (block ++ behind)) =
      italicize context.store (front ++ (block ++ behind)) := by
    rw [Theorem.content, if_pos italic, if_neg notProof]
  have inside := content_infix_render shown style context.store title
    (before ++ (Html.paragraph block ++ after))
  rw [trimmed, content] at inside
  rw [Text.trim_paragraph starts ends visible]
  exact (italicize_block ends visible.2 complete broken context.store).trans inside

/-- What an environment in another one becomes: the inner one is converted as it is by
itself, and the outer one is written around the result or stays around it. An upright body
and one that stays hold the inner block as it is. A body in italics holds it with its lines
set in italics once more. -/
theorem convertTheorems_nested (outerName : IsEnvironmentName outer)
    (innerName : IsEnvironmentName inner)
    (known : findTheorem? context.defined outer = some style)
    (commandless : IsCommandless before ∧ IsCommandless after) (isSealed : IsSealed body) :
    let alone := convertTheorems context (enclosed inner body)
    let nested := convertTheorems context
      (enclosed outer (before ++ (enclosed inner body ++ after)))
    nested = (if IsConverted outer style then
        style.render context.options context.store none (before ++ (alone ++ after))
      else enclosed outer (before ++ (alone ++ after))) ∧
      (¬ (IsConverted outer style ∧ style.italic = true) → Text.trim alone <:+: nested) ∧
      (IsConverted outer style → style.italic = true → alone ≠ enclosed inner body →
        italicize context.store (Text.trim alone) <:+: nested) := by
  intro alone nested
  have around : nested = if IsConverted outer style then
        style.render context.options context.store none (before ++ (alone ++ after))
      else enclosed outer (before ++ (alone ++ after)) :=
    convertTheorems_around outerName innerName known commandless isSealed
  refine ⟨around, ?_, ?_⟩
  · intro upright
    rw [around]
    split
    next converted =>
      have plain : style.italic = false := by
        rw [← Bool.not_eq_true]
        exact fun italic => upright ⟨converted, italic⟩
      exact infix_render_of_upright shown plain none alone
    next other =>
      have within : alone <:+: before ++ (alone ++ after) := ⟨before, after, List.append_assoc ..⟩
      have inside : before ++ (alone ++ after) <:+: enclosed outer (before ++ (alone ++ after)) :=
        ⟨_, _, List.append_assoc ..⟩
      exact (Text.trim_infix alone).trans (within.trans inside)
  · intro converted italic changed
    have written : alone = _ := convertTheorems_enclosed innerName isSealed
    rw [around, if_pos converted]
    cases found : element? context inner body with
    | none =>
      rw [found] at written
      exact absurd written changed
    | some element =>
      rw [found, Option.getD_some] at written
      rw [written]
      exact infix_render_of_italic shown known italic found none

end Nested

/-- A remark in an upright body is kept, and in an italic one it is set in italics. -/
theorem convertTheorems_nested_remark :
    let context : TheoremContext := ⟨.standard, .empty, []⟩
    let alone := convertTheorems context (enclosed "rem".toList "b".toList)
    let nested (outer : String) := convertTheorems context (enclosed outer.toList
      ("Let\n".toList ++ (enclosed "rem".toList "b".toList ++ "end".toList)))
    Text.trim alone <:+: nested "defn" ∧
      italicize context.store (Text.trim alone) <:+: nested "theorem*" := by
  intro context alone nested
  have innerName : IsEnvironmentName "rem".toList := by decide
  have commandless : IsCommandless "Let\n".toList ∧ IsCommandless "end".toList := by decide
  have isSealed : IsSealed "b".toList := ⟨by decide, by decide⟩
  constructor
  · exact (convertTheorems_nested (rfl : context.options.preview = false)
      (by decide : IsEnvironmentName "defn".toList) innerName rfl commandless isSealed).2.1
        (by decide)
  · exact (convertTheorems_nested (rfl : context.options.preview = false)
      (by decide : IsEnvironmentName "theorem*".toList) innerName rfl commandless isSealed).2.2
        (by decide) (by decide) (by decide +kernel)

/-- A lemma in a theorem loses its heading to the italics around it. -/
theorem convertTheorems_nested_lemma :
    let context : TheoremContext := ⟨.standard, .empty, []⟩
    let single := enclosed "lemma".toList "b".toList
    context.options.preview = false ∧ (findTheorem? context.defined "theorem".toList).isSome ∧
      (findTheorem? context.defined "lemma".toList).isSome ∧ IsSealed "b".toList ∧
      "**Lema.** *b*".toList <:+: convertTheorems context single ∧
      "***Lema.** *b**".toList <:+: convertTheorems context (enclosed "theorem".toList single) ∧
      ¬ Text.trim (convertTheorems context single) <:+:
        convertTheorems context (enclosed "theorem".toList single) := by
  intro context single
  have converted : "**Lema.** *b*".toList <:+: convertTheorems context single ∧
      "***Lema.** *b**".toList <:+: convertTheorems context (enclosed "theorem".toList single) ∧
        ¬ Text.trim (convertTheorems context single) <:+:
          convertTheorems context (enclosed "theorem".toList single) := by decide +kernel
  exact ⟨rfl, by decide, by decide, ⟨by decide, by decide⟩, converted⟩

end Block

end LatexMarkdown
