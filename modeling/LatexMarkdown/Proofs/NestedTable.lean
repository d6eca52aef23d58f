import LatexMarkdown.Proofs.SingleCell

/-!
# A table in a cell

A cell that holds nothing but a table shows what that table becomes by itself.
For this the inner table must balance, so that no separator of it divides the
outer one, and it must have neither formulas nor commands of the grid, since the
outer table would take those out first.
-/

namespace LatexMarkdown.Table

open Scan

/-! ## Separators inside an environment -/

/-- How every environment closes, up to its name. -/
def environmentClosing : Text :=
  "\\end".toList ++ ['{']

/-- Whether a text closes no environment that was open before it; `level` are
opened in the text so far. -/
def staysInside : (level : Nat) → (escaped : Bool) → Text → Bool
  | _, _, [] => true
  | level, true, _ :: rest => staysInside level false rest
  | level, false, c :: rest =>
    if c = '\\' then
      if Text.startsWith Document.Inset.environmentOpening (c :: rest) then
        staysInside (level + 1) true rest
      else if Text.startsWith environmentClosing (c :: rest) then
        level != 0 && staysInside (level - 1) true rest
      else staysInside level true rest
    else staysInside level false rest

/-- A text without backslashes and separators is one cell, wherever it stands. -/
theorem cellsFrom_of_plain {text : Text} (plain : '\\' ∉ text) (undivided : '&' ∉ text)
    (depth : Depth) (escaped : Bool) : cellsFrom depth escaped text = [text] := by
  induction text generalizing depth escaped with
  | nil => cases escaped <;> rfl
  | cons c rest inductionHypothesis =>
    rw [List.mem_cons, not_or] at plain undivided
    have later := inductionHypothesis plain.2 undivided.2
    cases escaped with
    | true =>
      rw [cellsFrom, later]
      rfl
    | false => simp [cellsFrom, Ne.symm plain.1, Ne.symm undivided.1, later, Text.keepInFirst]

theorem afterBrace_environments (depth : Depth) (c : Char) :
    (depth.afterBrace c).environments = depth.environments := by
  rw [Depth.afterBrace]
  split
  · rfl
  split <;> rfl

/-- A command is not continued by the marker behind it. -/
theorem startsWith_append_endMarker {word : Text} (plain : '\\' ∉ word) (rest name : Text) :
    Text.startsWith ('\\' :: word) ('\\' :: (rest ++ endMarker name)) =
      Text.startsWith ('\\' :: word) ('\\' :: rest) := by
  rw [Bool.eq_iff_iff, Text.startsWith_iff, Text.startsWith_iff, List.cons_prefix_cons,
    List.cons_prefix_cons]
  refine and_congr_right fun _ => ⟨Text.prefix_of_prefix_append_cons plain, fun start => ?_⟩
  exact start.trans (List.prefix_append _ _)

/-- A backslash inside an environment divides nothing. -/
theorem single_of_command {depth : Depth} (below : depth.isTop = false) {rest : Text}
    (later : rowsFrom (depth.afterCommand ('\\' :: rest)) true 0 rest = [rest] ∧
      cellsFrom (depth.afterCommand ('\\' :: rest)) true rest = [rest]) :
    rowsFrom depth false 0 ('\\' :: rest) = ['\\' :: rest] ∧
      cellsFrom depth false ('\\' :: rest) = ['\\' :: rest] := by
  simp [rowsFrom, cellsFrom, below, later, Text.keepInFirst]

/-- A text that stays inside an environment keeps the level behind a command one
below the depth there, whatever the marker behind the text. -/
theorem level_of_command {level : Nat} {rest : Text}
    (inside : staysInside level false ('\\' :: rest) = true) {depth : Depth}
    (nested : depth.environments = level + 1) (name : Text) :
    ∃ next, staysInside next true rest = true ∧
      (depth.afterCommand ('\\' :: (rest ++ endMarker name))).environments = next + 1 := by
  have opening : Text.startsWith Document.Inset.environmentOpening
      ('\\' :: (rest ++ endMarker name)) =
        Text.startsWith Document.Inset.environmentOpening ('\\' :: rest) :=
    startsWith_append_endMarker (by decide : '\\' ∉ "begin\x7b".toList) rest name
  have closing : Text.startsWith environmentClosing ('\\' :: (rest ++ endMarker name)) =
      Text.startsWith environmentClosing ('\\' :: rest) :=
    startsWith_append_endMarker (by decide : '\\' ∉ "end\x7b".toList) rest name
  change Text.startsWith ("\\begin".toList ++ ['{']) _ = _ at opening
  change Text.startsWith ("\\end".toList ++ ['{']) _ = _ at closing
  rw [Depth.afterCommand, opening, closing]
  rw [staysInside, if_pos rfl] at inside
  split at inside
  next opened =>
    refine ⟨level + 1, inside, ?_⟩
    rw [if_pos opened, nested]
  next unopened =>
    rw [if_neg unopened]
    split at inside
    next closed =>
      rw [Bool.and_eq_true, bne_iff_ne] at inside
      refine ⟨level - 1, inside.2, ?_⟩
      rw [if_pos closed]
      simp only [nested]
      omega
    next unclosed =>
      refine ⟨level, inside, ?_⟩
      rw [if_neg unclosed, nested]

/-- A text that stays inside an environment is one row and one cell up to the
marker that closes the environment. -/
theorem single_of_staysInside {level : Nat} {escaped : Bool} {text name : Text}
    (inside : staysInside level escaped text = true) (bare : '\\' ∉ name) (joined : '&' ∉ name)
    {depth : Depth} (nested : depth.environments = level + 1) :
    rowsFrom depth escaped 0 (text ++ endMarker name) = [text ++ endMarker name] ∧
      cellsFrom depth escaped (text ++ endMarker name) = [text ++ endMarker name] := by
  induction text generalizing level escaped depth with
  | nil =>
    have below : depth.isTop = false := by simp [Depth.isTop, nested]
    have spelled : endMarker name = '\\' :: ("end".toList ++ '{' :: name ++ ['}']) := rfl
    have plain : '\\' ∉ "end".toList ++ '{' :: name ++ ['}'] := by simp [bare]
    have undivided : '&' ∉ "end".toList ++ '{' :: name ++ ['}'] := by simp [joined]
    have behind (depth : Depth) (escaped : Bool) :=
      And.intro (rowsFrom_of_plain plain depth escaped)
        (cellsFrom_of_plain plain undivided depth escaped)
    rw [List.nil_append, spelled]
    cases escaped with
    | true =>
      rw [rowsFrom, cellsFrom, (behind depth false).1, (behind depth false).2]
      exact ⟨rfl, rfl⟩
    | false => exact single_of_command below (behind _ true)
  | cons c rest inductionHypothesis =>
    have below : depth.isTop = false := by simp [Depth.isTop, nested]
    rw [List.cons_append]
    cases escaped with
    | true =>
      obtain ⟨rows, cells⟩ := inductionHypothesis inside nested
      rw [rowsFrom, cellsFrom, rows, cells]
      exact ⟨rfl, rfl⟩
    | false =>
      by_cases backslash : c = '\\'
      · subst backslash
        obtain ⟨next, later, deeper⟩ := level_of_command inside nested name
        exact single_of_command below (inductionHypothesis later deeper)
      · rw [staysInside, if_neg backslash] at inside
        obtain ⟨rows, cells⟩ := inductionHypothesis inside
          ((afterBrace_environments depth c).trans nested)
        simp [rowsFrom, cellsFrom, backslash, below, rows, cells, Text.keepInFirst]

/-! ## The nested table -/

/-- The name of the environment of the inner table. -/
def tabular : Text :=
  "tabular".toList

/-- A table with a column specification and a body, as a source spells it. -/
def nestedTable (specification body : Text) : Text :=
  beginMarker tabular ++ '{' :: (specification ++ '}' :: (body ++
    endMarker tabular))

/-- A column specification and a body that make a table by themselves, without
formulas and without commands of the grid. -/
structure Nestable (specification body : Text) : Prop where
  specified : readBraced ('{' :: (specification ++ ['}'])) = some (specification, [])
  closed : readBody tabular (body ++ endMarker tabular) = some (body, [])
  inside : staysInside 0 false (specification ++ '}' :: body) = true
  gridFree : GridFree specification ∧ GridFree body
  dollarless : '$' ∉ specification ∧ '$' ∉ body
  unopened : ¬ "\\(".toList <:+: specification ∧ ¬ "\\(".toList <:+: body

/-- A command without braces that is in no marker of the inner table. -/
structure IsCommand (command : Text) : Prop where
  starts : command = '\\' :: command.tail
  plain : '\\' ∉ command.tail
  braces : '{' ∉ command ∧ '}' ∉ command
  opening : ¬ command <:+: beginMarker tabular
  closing : ¬ command <:+: endMarker tabular

instance (command : Text) : Decidable (IsCommand command) :=
  decidable_of_iff (command = '\\' :: command.tail ∧ '\\' ∉ command.tail ∧
      ('{' ∉ command ∧ '}' ∉ command) ∧ ¬ command <:+: beginMarker tabular ∧
        ¬ command <:+: endMarker tabular)
    ⟨fun ⟨starts, plain, braces, opening, closing⟩ => ⟨starts, plain, braces, opening, closing⟩,
      fun ⟨starts, plain, braces, opening, closing⟩ => ⟨starts, plain, braces, opening, closing⟩⟩

/-- A pattern with a sign only at its start does not reach over that sign. -/
theorem infix_append_sign {sign : Char} {word before after : Text} (absent : sign ∉ word)
    (occurs : (sign :: word) <:+: before ++ sign :: after) :
    (sign :: word) <:+: before ∨ (sign :: word) <:+: sign :: after := by
  induction before with
  | nil => exact .inr occurs
  | cons c others inductionHypothesis =>
    rw [List.cons_append, List.infix_cons_iff] at occurs
    rcases occurs with start | later
    · obtain ⟨rfl, front⟩ := List.cons_prefix_cons.mp start
      have inside := Text.prefix_of_prefix_append_cons absent front
      exact .inl (List.cons_prefix_cons.mpr ⟨rfl, inside⟩).isInfix
    · exact (inductionHypothesis later).imp_left List.infix_cons

/-- A command that is in neither part is not in the table. -/
theorem not_infix_nestedTable {command specification body : Text} (spelled : IsCommand command)
    (left : ¬ command <:+: specification) (right : ¬ command <:+: body) :
    ¬ command <:+: nestedTable specification body := by
  have behind : ¬ command <:+: body ++ endMarker tabular := by
    obtain ⟨starts, plain, -, -, closing⟩ := spelled
    rw [starts] at right closing ⊢
    exact fun occurs => (infix_append_sign plain occurs).elim right closing
  exact Text.not_infix_append_cons spelled.braces.1 spelled.opening
    (Text.not_infix_append_cons spelled.braces.2 left behind)

/-- Nothing is trimmed around the table. -/
theorem trim_nestedTable (specification body : Text) :
    Text.trim (nestedTable specification body) = nestedTable specification body := by
  have marker : (endMarker tabular).getLast? = some '}' := by decide
  have ends : (nestedTable specification body).getLast? = some '}' := by
    simp [nestedTable, List.getLast?_append, List.getLast?_cons, marker]
  exact Text.trim_of_ends rfl ends (by decide : Text.isBlank '\\' = false ∧ _)

namespace Nestable

variable {specification body : Text} (nestable : Nestable specification body)

include nestable

/-- The table is read as one environment. -/
theorem readEnvironment_eq : ∃ environment,
    readEnvironment tabular 1 1 .start (nestedTable specification body) =
      some (environment, []) ∧
    environment.arguments.required = [specification] ∧ environment.body = body := by
  have specified := readBraced_append nestable.specified
    (body ++ endMarker tabular)
  rw [List.nil_append, List.cons_append, List.append_assoc, List.singleton_append] at specified
  have arguments : readArguments ⟨false, 1, 1⟩ ('{' :: (specification ++ '}' :: (body ++
      endMarker tabular))) =
        some (⟨false, [], [specification]⟩, body ++ endMarker tabular) :=
    readArguments_of_braced specified false 1
  obtain ⟨stop, read⟩ : ∃ stop, readEnvironment tabular 1 1 .start
      (nestedTable specification body) =
        some (⟨0, stop, ⟨false, [], [specification]⟩, body⟩, []) := by
    rw [readEnvironment, if_neg (by decide), nestedTable, Text.dropFront?_append]
    simp only [Option.bind_eq_bind, Option.bind_some, arguments, nestable.closed]
    exact ⟨_, rfl⟩
  exact ⟨_, read, rfl, rfl⟩

/-- The table is the content of a single cell. -/
theorem isSingleCell : IsSingleCell (nestedTable specification body) := by
  let inner := "begin\x7btabular\x7d\x7b".toList ++ (specification ++ '}' :: body)
  have spelled : nestedTable specification body = '\\' :: (inner ++ endMarker tabular) := by
    have marker : beginMarker tabular ++ ['{'] = '\\' :: "begin\x7btabular\x7d\x7b".toList := by
      decide
    have opened : nestedTable specification body = beginMarker tabular ++ ['{'] ++
        (specification ++ '}' :: (body ++ endMarker tabular)) := by
      rw [nestedTable, List.append_assoc, List.singleton_append]
    rw [opened, marker]
    simp only [inner, List.append_assoc, List.cons_append]
  have inside : staysInside 0 true inner = true := nestable.inside
  have opened : Depth.top.afterCommand ('\\' :: (inner ++ endMarker tabular)) = ⟨0, 1⟩ := by
    rfl
  have unbroken : afterRowBreak? ('\\' :: (inner ++ endMarker tabular)) = none := rfl
  have nested : (⟨0, 1⟩ : Depth).environments = 0 + 1 := rfl
  obtain ⟨rows, cells⟩ := single_of_staysInside inside (by decide : '\\' ∉ tabular)
    (by decide : '&' ∉ tabular) nested
  refine ⟨?_, ?_, ?_, ?_⟩
  · rw [spelled, splitRows, rowsFrom, if_pos rfl, unbroken, ite_self, opened, rows]
    rfl
  · rw [spelled, splitCells, cellsFrom, if_pos rfl, opened, cells]
    rfl
  · rw [spelled]
    rfl
  · have commands : ∀ command ∈ gridCommands, IsCommand command := by decide
    exact fun command listed => not_infix_nestedTable (commands command listed)
      (nestable.gridFree.1 command listed) (nestable.gridFree.2 command listed)

/-- The table has no formula to store. -/
theorem storeFormulas_eq (colors : ColorTable) :
    storeFormulas colors (nestedTable specification body) =
      (.empty, nestedTable specification body) := by
  refine storeFormulas_of_absent ?_ (not_infix_nestedTable (by decide) nestable.unopened.1
    nestable.unopened.2)
  have opening : '$' ∉ beginMarker tabular := by decide
  have closing : '$' ∉ endMarker tabular := by decide
  simp [nestedTable, opening, closing, nestable.dollarless]

end Nestable

/-- The table of a cell that holds only a table is the single cell with that
table. -/
theorem render_nestedTable {colors : ColorTable} {specification body : Text}
    (nestable : Nestable specification body) (ends : comesToEnd colors specification body = true)
    (finished : IsFinished (render colors specification body)) :
    render colors "l".toList (nestedTable specification body) =
      singleCell (Text.trim (render colors specification body)) := by
  obtain ⟨table, converted⟩ := Option.isSome_iff_exists.mp ends
  have rendered : render colors specification body = table := by
    rw [render, converted, Option.getD_some]
  rw [rendered] at finished ⊢
  obtain ⟨environment, read, required, rfl⟩ := nestable.readEnvironment_eq
  have inner : renderNested (render? colors)
      ⟨"tabular", 1, 1⟩ true (nestedTable specification environment.body) = (true, table) := by
    refine renderNested_whole read ?_
    rw [Family.specification, Arguments.argument, required]
    exact converted
  have unopened : ¬ Document.Inset.environmentOpening <:+: table := by
    have sign : '\\' ∈ Document.Inset.environmentOpening := by decide
    exact fun occurs => finished.plain (occurs.subset sign)
  refine render_of_single nestable.isSingleCell ?_
  rw [trim_nestedTable, renderCell?_eq, nestable.storeFormulas_eq, families, renderFamilies_cons,
    inner, renderFamilies_of_unopened unopened, if_pos rfl, finishCell_of_finished finished]

/-- A body with rows, cells, a command and a colour. -/
def coloredBody : Text :=
  "x & \\textbf\x7by\x7d \\\\ \\textcolor\x7ba\x7d\x7bz\x7d & 1".toList

theorem nestable_coloredBody : Nestable "lc".toList coloredBody where
  specified := by decide
  closed := by decide
  inside := by decide
  gridFree := by decide
  dollarless := by decide
  unopened := by decide

theorem render_nestedTable_coloredBody :
    Nestable "lc".toList coloredBody ∧ comesToEnd plainColors "lc".toList coloredBody = true ∧
    IsFinished (render plainColors "lc".toList coloredBody) ∧
    render plainColors "l".toList (nestedTable "lc".toList coloredBody) =
      singleCell (Text.trim (render plainColors "lc".toList coloredBody)) := by
  obtain ⟨enough, plain, unpunctuated, tokenless⟩ :
      (renderAt? plainColors 1 "lc".toList coloredBody).isSome = true ∧
        let table := (renderAt? plainColors 1 "lc".toList coloredBody).getD []
        '\\' ∉ table ∧ (∀ entry ∈ Symbol.punctuation, ¬ entry.1 <:+: table) ∧
          ¬ Fragment.tokenOpening <:+: table := by
    decide +kernel
  obtain ⟨ends, rendered⟩ := render_eq_getD enough
  have finished : IsFinished (render plainColors "lc".toList coloredBody) := by
    rw [rendered]
    exact ⟨plain, unpunctuated, tokenless⟩
  exact ⟨nestable_coloredBody, ends, finished,
    render_nestedTable nestable_coloredBody ends finished⟩

/-- A formula in the inner table is stored for the outer cell, and its token is
lost in the store of the inner cell. -/
theorem render_nestedTable_formula :
    readBraced ['{', 'l', '}'] = some ("l".toList, []) ∧
    readBody tabular ("$x$".toList ++ endMarker tabular) = some ("$x$".toList, []) ∧
    staysInside 0 false ("l".toList ++ '}' :: "$x$".toList) = true ∧
    comesToEnd .empty "l".toList "$x$".toList = true ∧
    render .empty "l".toList "$x$".toList = singleCell "$x$".toList ∧
    render .empty "l".toList (nestedTable "l".toList "$x$".toList) =
      singleCell (Text.trim (singleCell [])) := by
  obtain ⟨innerEnough, outerEnough, inner, outer⟩ :
      (renderAt? .empty 1 "l".toList "$x$".toList).isSome = true ∧
        (renderAt? .empty 2 "l".toList (nestedTable "l".toList "$x$".toList)).isSome = true ∧
          (renderAt? .empty 1 "l".toList "$x$".toList).getD [] = singleCell "$x$".toList ∧
            (renderAt? .empty 2 "l".toList (nestedTable "l".toList "$x$".toList)).getD [] =
              singleCell (Text.trim (singleCell [])) := by
    decide +kernel
  obtain ⟨ends, rendered⟩ := render_eq_getD innerEnough
  refine ⟨by decide, by decide, by decide, ends, rendered.trans inner, ?_⟩
  exact (render_eq_getD outerEnough).2.trans outer

end LatexMarkdown.Table
