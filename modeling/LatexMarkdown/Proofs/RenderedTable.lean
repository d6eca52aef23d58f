import LatexMarkdown.Proofs.TokenFree
import LatexMarkdown.Table.Nesting

/-!
# Tokens in rendered tables

Tags stand around everything that a table takes over: the backgrounds of its
rows and cells, and the contents of its cells as they are written. A table
therefore holds a token exactly when one of those texts does.
-/

namespace LatexMarkdown

open Fragment

/-- The property of a style has the tokens of its value. -/
theorem Html.tokenFree_property {name : String} (separate : Separating name.toList)
    (value : Text) : TokenFree (property name value) ↔ TokenFree value := by
  have colon : Separating ": ".toList := by decide
  have semicolon : Separating [';'] := by decide
  have front : Separating (name.toList ++ ": ".toList) := fun c member =>
    (List.mem_append.mp member).elim (separate c) (colon c)
  rw [property, tokenFree_within front semicolon]

/-- Pieces between separating separators have their own tokens. -/
theorem Text.tokenFree_joinWith {separator : Text} (nonempty : separator ≠ [])
    (separate : Separating separator) (pieces : List Text) :
    TokenFree (joinWith separator pieces) ↔ ∀ piece ∈ pieces, TokenFree piece := by
  induction pieces with
  | nil => exact TokenFree.nil.iff_nothing
  | cons piece others inductionHypothesis =>
    cases others with
    | nil => rw [joinWith, List.forall_mem_singleton]
    | cons next others =>
      rw [joinWith, tokenFree_around nonempty separate, inductionHypothesis,
        List.forall_mem_cons (l := next :: others)]

namespace Table

/-- Pieces that are written one after another, each ended by a tag, have the
tokens of the texts that they take over. -/
theorem tokenFree_mapM {α : Type} {write : α → Option Text} {texts : α → List Text}
    {closing : Text} (nonempty : closing ≠ []) (separate : Separating closing)
    (shape : ∀ item piece, write item = some piece → ∃ front, piece = front ++ closing ∧
      (TokenFree front ↔ ∀ text ∈ texts item, TokenFree text))
    {items : List α} {pieces : List Text} (written : items.mapM write = some pieces) :
    TokenFree pieces.flatten ↔ ∀ text ∈ items.flatMap texts, TokenFree text := by
  induction items generalizing pieces with
  | nil =>
    obtain rfl : [] = pieces := by simpa using written
    exact TokenFree.nil.iff_nothing
  | cons item others inductionHypothesis =>
    simp only [List.mapM_cons, Option.bind_eq_bind, Option.bind_eq_some_iff, Option.pure_def,
      Option.some.injEq] at written
    obtain ⟨piece, first, later, further, rfl⟩ := written
    obtain ⟨front, rfl, decides⟩ := shape item piece first
    rw [List.flatten_cons, tokenFree_around nonempty separate, decides,
      inductionHypothesis further]
    simp only [List.flatMap_cons, List.mem_append, or_imp, forall_and]

/-- What a cell takes over; its content is converted first. -/
def Cell.taken (content? : Text → Option Text) (cell : Cell) : List Text :=
  cell.background.toList ++ (content? cell.content).toList

/-- What a row takes over. -/
def Row.taken (content? : Text → Option Text) (row : Row) : List Text :=
  row.background.toList ++ row.cells.flatMap (Cell.taken content?)

/-- A span in a tag has no at sign. -/
theorem not_mem_spanAttribute {name : String} (plain : '@' ∉ name.toList) (span : Nat) :
    '@' ∉ spanAttribute name span := by
  rw [spanAttribute]
  split
  · simp [plain, not_mem_ofNat]
  · exact List.not_mem_nil

/-- The alignments that a style can have hold no token. -/
theorem Alignment.tokenFree_css {alignment : Alignment} {value : Text}
    (fixed : alignment.css? = some value) : TokenFree value := by
  refine TokenFree.of_no_at ?_
  cases alignment <;> simp only [Alignment.css?, Option.some.injEq, reduceCtorEq] at fixed
  all_goals
    rw [← fixed]
    decide

/-- The properties in the style of a cell. -/
def Cell.style (cell : Cell) : List Text :=
  (cell.alignment.bind Alignment.css?).toList.map (Html.property "text-align") ++
    cell.background.toList.map (Html.property "background-color")

/-- The style of a cell has the tokens of its background. -/
theorem Cell.tokenFree_style (cell : Cell) :
    (∀ property ∈ cell.style, TokenFree property) ↔
      ∀ color ∈ cell.background.toList, TokenFree color := by
  have aligned : ∀ value ∈ (cell.alignment.bind Alignment.css?).toList,
      TokenFree (Html.property "text-align" value) := by
    intro value member
    obtain ⟨alignment, -, fixed⟩ := Option.bind_eq_some_iff.mp (Option.mem_toList.mp member)
    rw [Html.tokenFree_property (by decide)]
    exact Alignment.tokenFree_css fixed
  have color (value : Text) :
      TokenFree (Html.property "background-color" value) ↔ TokenFree value :=
    Html.tokenFree_property (by decide) value
  rw [Cell.style, List.forall_mem_append, List.forall_mem_map, List.forall_mem_map,
    and_iff_right aligned]
  simp only [color]

/-- What the tag of a cell opens has its own tokens beside those of the
background; spans and alignments have none. -/
theorem Cell.tokenFree_openTag (cell : Cell) (content : Text) :
    TokenFree (cell.openTag ++ content) ↔
      (∀ color ∈ cell.background.toList, TokenFree color) ∧ TokenFree content := by
  have spans : TokenFree ("<td".toList ++ spanAttribute "colspan" cell.columnSpan ++
      spanAttribute "rowspan" cell.rowSpan) := by
    refine TokenFree.of_no_at ?_
    rw [List.mem_append, List.mem_append, not_or, not_or]
    exact ⟨⟨by decide, not_mem_spanAttribute (by decide) _⟩,
      not_mem_spanAttribute (by decide) _⟩
  have opening : Separating " style=\"".toList := by decide
  have quote : Separating ['"'] := by decide
  have closing : Separating ['>'] := by decide
  have blank : Separating [' '] := by decide
  have shape : cell.openTag = "<td".toList ++ spanAttribute "colspan" cell.columnSpan ++
      spanAttribute "rowspan" cell.rowSpan ++ (if cell.style.isEmpty then []
        else " style=\"".toList ++ Text.joinWith [' '] cell.style ++ ['"']) ++ ['>'] := rfl
  rw [shape, tokenFree_around (by decide) closing, ← cell.tokenFree_style]
  refine and_congr_left' ?_
  split
  next empty =>
    rw [List.isEmpty_iff] at empty
    rw [List.append_nil, empty]
    exact spans.iff_nothing
  · rw [← List.append_assoc, tokenFree_append_right quote, ← List.append_assoc,
      tokenFree_around (by decide) opening, and_iff_right spans,
      Text.tokenFree_joinWith (by decide) blank]

/-- What the tag of a row opens has its own tokens beside those of the
background. -/
theorem Row.tokenFree_openTag (row : Row) (content : Text) :
    TokenFree (row.openTag ++ content) ↔
      (∀ color ∈ row.background.toList, TokenFree color) ∧ TokenFree content := by
  cases background : row.background with
  | none =>
    have plain : Separating "<tr>".toList := by decide
    have shape : row.openTag = "<tr>".toList := by rw [Row.openTag, background]
    rw [shape, tokenFree_append_left plain]
    simp
  | some color =>
    have opening : Separating "<tr style=\"".toList := by decide
    have closing : Separating "\">".toList := by decide
    have shape : row.openTag =
        "<tr style=\"".toList ++ Html.property "background-color" color ++ "\">".toList := by
      rw [Row.openTag, background]
      rfl
    rw [shape, tokenFree_around (by decide) closing, tokenFree_append_left opening,
      Html.tokenFree_property (by decide), Option.toList_some, List.forall_mem_singleton]

section Contents

variable {content? : Text → Option Text}

/-- A cell has the tokens of what it takes over. -/
theorem Cell.tokenFree_html {cell : Cell} {written : Text}
    (html : cell.html? content? = some written) :
    ∃ front, written = front ++ "</td>".toList ∧
      (TokenFree front ↔ ∀ text ∈ cell.taken content?, TokenFree text) := by
  obtain ⟨content, converted, rfl⟩ := Option.map_eq_some_iff.mp html
  refine ⟨cell.openTag ++ content, rfl, ?_⟩
  rw [cell.tokenFree_openTag, Cell.taken, converted, Option.toList_some, List.forall_mem_append,
    List.forall_mem_singleton]

/-- A row has the tokens of what it takes over. -/
theorem Row.tokenFree_html {row : Row} {written : Text}
    (html : row.html? content? = some written) :
    ∃ front, written = front ++ "</tr>\n".toList ∧
      (TokenFree front ↔ ∀ text ∈ row.taken content?, TokenFree text) := by
  obtain ⟨cells, converted, rfl⟩ := Option.map_eq_some_iff.mp html
  refine ⟨row.openTag ++ cells.flatten, rfl, ?_⟩
  have closing : Separating "</td>".toList := by decide
  rw [row.tokenFree_openTag, Row.taken, List.forall_mem_append,
    tokenFree_mapM (by decide) closing (fun _ _ html => Cell.tokenFree_html html) converted]

/-- A table has the tokens of what its rows take over. -/
theorem tokenFree_html {rows : List Row} {written : Text}
    (html : html? content? rows = some written) :
    TokenFree written ↔ ∀ text ∈ rows.flatMap (Row.taken content?), TokenFree text := by
  obtain ⟨pieces, converted, rfl⟩ := Option.map_eq_some_iff.mp html
  have opening : Separating "\n<table class=\"latex-table\">\n".toList := by decide
  have closing : Separating "</table>\n".toList := by decide
  have rowClosing : Separating "</tr>\n".toList := by decide
  rw [tokenFree_append_right closing, tokenFree_append_left opening,
    tokenFree_mapM (by decide) rowClosing (fun _ _ html => Row.tokenFree_html html) converted]

end Contents

/-- What a table takes over. One in which tables are found for ever takes nothing. -/
def taken (colors : ColorTable) (specification body : Text) : List Text :=
  if (render? colors specification body).isNone then []
  else
    (readGrid colors (columns specification) body).flatMap
      (Row.taken (renderCell? colors (render? colors)))

/-- A table has the tokens of what it takes over. -/
theorem tokenFree_render (colors : ColorTable) (specification body : Text) :
    TokenFree (render colors specification body) ↔
      ∀ text ∈ taken colors specification body, TokenFree text := by
  rw [render, taken]
  cases html : render? colors specification body with
  | none => exact TokenFree.nil.iff_nothing
  | some written =>
    rw [render?] at html
    exact tokenFree_html html

end Table

end LatexMarkdown
