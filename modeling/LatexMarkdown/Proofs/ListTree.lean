import LatexMarkdown.Proofs.CodeOutput
import LatexMarkdown.Proofs.ListReading
import LatexMarkdown.Proofs.Locality

/-!
# Trees of lists

Lists nest in the items of lists. Such a tree is written with a line for every
marker, and it becomes a line for every item, in order, indented by the markers
of the lists around its list. Between the lines the blanks that stand at the end
of the output are taken back, so only the output without them is followed.
-/

namespace LatexMarkdown

/-- Joined lines with something in them are not empty. -/
theorem Text.joinWith_ne_nil (separator : Text) {pieces : List Text} (nonempty : pieces ≠ [])
    (filled : [] ∉ pieces) : Text.joinWith separator pieces ≠ [] := by
  obtain ⟨piece, others, rfl⟩ := List.exists_cons_of_ne_nil nonempty
  have visible : piece ≠ [] := fun empty => filled (empty ▸ List.mem_cons_self ..)
  cases others with
  | nil => exact visible
  | cons next later =>
    rw [Text.joinWith_cons separator piece (List.cons_ne_nil _ _)]
    exact List.append_ne_nil_of_left_ne_nil visible _

namespace Block

open Scan (beginMarker endMarker readLineOption)

/-! ## Trees -/

/-- The label of an item, if it has one, and its text. -/
structure ItemHead where
  label : Option Text
  text : Text
  labelFits : ∀ content ∈ label, ∀ c ∈ content, c ≠ ']' ∧ c ≠ '\n'
  nonempty : text ≠ []
  trimmed : Text.trim text = text
  commandless : '\\' ∉ text
  noOption : text.head? ≠ some '['

mutual

/-- A list of some kind with its items. -/
inductive ListTree where
  | list (kind : ListKind) (items : List ListItem)

/-- An item with the lists behind its text. -/
inductive ListItem where
  | item (head : ItemHead) (nested : List ListTree)

end

namespace ItemHead

/-- The line with the marker of an item. -/
def source (head : ItemHead) : Text :=
  match head.label with
  | some label => "\\item".toList ++ '[' :: (label ++ ']' :: ' ' :: head.text)
  | none => "\\item".toList ++ ' ' :: head.text

/-- The marker that an item of a list gets: its trimmed label in bold, or what the kind of the
list says. -/
def marker (head : ItemHead) (kind : ListKind) : Text :=
  match head.label with
  | some label => "- **".toList ++ Text.trim label ++ "** ".toList
  | none => if kind = .enumerate then "1. ".toList else "- ".toList

/-- The line that an item of a list becomes, indented by the markers of the lists around its
own. -/
def line (head : ItemHead) (kind : ListKind) (enclosing : List ListKind) : Text :=
  Text.repeated (enclosing.map ListKind.markerWidth).sum ' ' ++ head.marker kind ++ head.text

end ItemHead

mutual

/-- A list as it is written: its marker, the lines of its items, and the marker of its end. -/
def ListTree.source : ListTree → Text
  | .list kind items =>
    beginMarker kind.name ++ '\n' :: (ListItem.sources items ++ endMarker kind.name)

/-- An item as it is written: its line, and the lines of the lists behind it. -/
def ListItem.source : ListItem → Text
  | .item head nested => head.source ++ '\n' :: ListTree.sources nested

def ListItem.sources : List ListItem → Text
  | [] => []
  | item :: others => item.source ++ ListItem.sources others

def ListTree.sources : List ListTree → Text
  | [] => []
  | tree :: others => tree.source ++ '\n' :: ListTree.sources others

end

mutual

/-- The lines of a list inside other lists, the innermost first. -/
def ListTree.lines (enclosing : List ListKind) : ListTree → List Text
  | .list kind items => ListItem.allLines kind enclosing items

/-- The lines of an item of a list: its own, and those of the lists behind its text. -/
def ListItem.lines (kind : ListKind) (enclosing : List ListKind) : ListItem → List Text
  | .item head nested => head.line kind enclosing :: ListTree.allLines (kind :: enclosing) nested

def ListItem.allLines (kind : ListKind) (enclosing : List ListKind) :
    List ListItem → List Text
  | [] => []
  | item :: others => item.lines kind enclosing ++ ListItem.allLines kind enclosing others

def ListTree.allLines (enclosing : List ListKind) : List ListTree → List Text
  | [] => []
  | tree :: others => tree.lines enclosing ++ ListTree.allLines enclosing others

end

/-! ## Items -/

namespace ItemHead

variable (head : ItemHead)

theorem isBlank_of_head? {c : Char} (starts : head.text.head? = some c) :
    Text.isBlank c = false :=
  Text.isBlank_of_head?_trim (head.trimmed.symm ▸ starts)

/-- The text of an item ends visibly. -/
theorem trimStart_reverse : Text.trimStart head.text.reverse = head.text.reverse := by
  have ends : Text.trimEnd head.text = head.text := by
    have trimmed := head.trimmed
    rw [Text.trim] at trimmed
    rw [← trimmed, Text.trimEnd_trimEnd]
  rw [Text.trimEnd_eq] at ends
  exact List.reverse_injective (ends.trans (List.reverse_reverse _).symm)

/-- Behind the space in front of it, the text of an item and what follows stay. -/
theorem trimStart_space (rest : Text) :
    Text.trimStart (' ' :: (head.text ++ rest)) = head.text ++ rest := by
  obtain ⟨c, others, spelled⟩ := List.exists_cons_of_ne_nil head.nonempty
  have visible : Text.isBlank c = false := head.isBlank_of_head? (by rw [spelled]; rfl)
  rw [spelled, Text.trimStart, List.dropWhile_cons_of_pos (by decide), List.cons_append,
    List.dropWhile_cons_of_neg (by rw [visible]; exact Bool.false_ne_true)]

/-- The text of an item is not read as a label. -/
theorem readLineOption_space (rest : Text) :
    readLineOption (' ' :: (head.text ++ rest)) = none := by
  obtain ⟨c, others, spelled⟩ := List.exists_cons_of_ne_nil head.nonempty
  have visible : Text.isBlank c = false := head.isBlank_of_head? (by rw [spelled]; rfl)
  cases read : readLineOption (' ' :: (head.text ++ rest)) with
  | none => rfl
  | some pair =>
    have shown := (Scan.readLineOption_eq_some_iff.mp read).1
    have unspaced : Text.isSpaceOrTab c = false := Text.isSpaceOrTab_of_visible visible
    rw [List.dropWhile_cons_of_pos (by decide), spelled, List.cons_append,
      List.dropWhile_cons_of_neg (by rw [unspaced]; exact Bool.false_ne_true)] at shown
    refine absurd ?_ head.noOption
    rw [spelled, (List.cons.inj shown).1]
    rfl

theorem marker_eq (kind : ListKind) : head.marker kind = itemMarker kind head.label := by
  rw [marker]
  cases head.label <;> cases kind <;> rfl

/-- The line of an item is read as its marker and its text. -/
theorem follow_source (state : ListState) (rest : Text) :
    state.follow (head.source ++ rest) =
      ((state.startItem head.label).write head.text).follow rest := by
  have ends (text : Text) : Text.endsWord (' ' :: text) = true :=
    show (!Text.isWordCharacter ' ') = true by decide
  rw [← ListState.follow_plain head.commandless, source]
  cases label : head.label with
  | none =>
    rw [List.append_assoc, List.cons_append,
      ListState.follow_item state (ends _) (head.readLineOption_space rest), head.trimStart_space]
  | some content =>
    have spelled : "\\item".toList ++ '[' :: (content ++ ']' :: ' ' :: head.text) ++ rest =
        "\\item".toList ++ '[' :: (content ++ ']' :: ' ' :: (head.text ++ rest)) := by simp
    have fits := head.labelFits content (Option.mem_def.mpr label)
    rw [spelled, ListState.follow_labelledItem state fits, head.trimStart_space]

end ItemHead

/-! ## What is shown -/

/-- Up to the blanks at its end, the output so far consists of some lines; the lists that are
open are known, and no blank line is due before a first item. -/
structure ListState.Shows (state : ListState) (stack : List ListKind) (lines : List Text) :
    Prop where
  written : state.written.dropWhile Text.isBlank = (Text.joinWith ['\n'] lines).reverse
  stack_eq : state.stack = stack
  filled : [] ∉ lines
  fresh : lines = [] ∨ state.begun = false

namespace ListState.Shows

variable {state : ListState} {stack : List ListKind} {lines : List Text}

theorem empty : ListState.empty.Shows [] [] :=
  ⟨rfl, rfl, List.not_mem_nil, .inl rfl⟩

/-- Blanks do not show. -/
theorem write_blank (shows : state.Shows stack lines) (blanks : Text)
    (blank : ∀ c ∈ blanks, Text.isBlank c = true) : (state.write blanks).Shows stack lines := by
  refine ⟨?_, shows.stack_eq, shows.filled, shows.fresh⟩
  rw [← shows.written]
  exact List.dropWhile_append_of_pos fun c member => blank c (List.mem_reverse.mp member)

/-- The beginning of a list does not show. -/
theorem openList (shows : state.Shows stack lines) (inside : lines = [] ∨ stack ≠ [])
    (kind : ListKind) : (state.openList kind).Shows (kind :: stack) lines := by
  refine ⟨shows.written, congrArg (kind :: ·) shows.stack_eq, shows.filled, ?_⟩
  rcases inside with first | nested
  · exact .inl first
  · refine shows.fresh.imp_right fun unbegun => ?_
    rw [ListState.openList, unbegun, shows.stack_eq, List.isEmpty_eq_false_iff.mpr nested]
    rfl

/-- The end of a list does not show. -/
theorem closeList {kind : ListKind} (shows : state.Shows (kind :: stack) lines) :
    state.closeList.Shows stack lines := by
  have trimmed : ({ state.trimWritten with stack := state.stack.tail } : ListState).Shows
      stack lines := by
    refine ⟨?_, ?_, shows.filled, shows.fresh⟩
    · rw [← shows.written]
      exact List.dropWhile_idempotent (p := Text.isBlank) state.written
    · rw [shows.stack_eq]
      rfl
  refine trimmed.write_blank _ ?_
  split <;> decide

/-- An item adds its line. -/
theorem startItem {kind : ListKind} (shows : state.Shows (kind :: stack) lines)
    (head : ItemHead) :
    ((state.startItem head.label).write head.text).Shows (kind :: stack)
      (lines ++ [head.line kind stack]) := by
  have trimmed : state.trimWritten.written = (Text.joinWith ['\n'] lines).reverse :=
    shows.written
  have visible : head.text.reverse.dropWhile Text.isBlank ≠ [] := by
    rw [← Text.trimStart, head.trimStart_reverse]
    exact mt List.reverse_eq_nil_iff.mp head.nonempty
  have kept (before : Text) : (head.text.reverse ++ before).dropWhile Text.isBlank =
      head.text.reverse ++ before := by
    rw [Scan.dropWhile_append_of_ne_nil visible, ← Text.trimStart, head.trimStart_reverse]
  have written : ((state.startItem head.label).write head.text).written =
      head.text.reverse ++ (((if (Text.joinWith ['\n'] lines).reverse.isEmpty then []
          else if state.begun then "\n\n".toList else ['\n']) ++
        Text.repeated (stack.map ListKind.markerWidth).sum ' ' ++ head.marker kind).reverse ++
        (Text.joinWith ['\n'] lines).reverse) := by
    rw [ListState.write, ListState.written_startItem, trimmed, shows.stack_eq, head.marker_eq]
    rfl
  have filled : [] ≠ head.line kind stack := by
    intro same
    have ends := congrArg List.reverse same
    simp [ItemHead.line, head.nonempty] at ends
  refine ⟨?_, shows.stack_eq, ?_, .inr rfl⟩
  · rw [written, kept]
    rcases eq_or_ne lines [] with rfl | later
    · simp [Text.joinWith, ItemHead.line]
    · have unbegun : state.begun = false := shows.fresh.resolve_left later
      have joined := Text.joinWith_ne_nil ['\n'] later shows.filled
      rw [Text.joinWith_append _ later (List.cons_ne_nil _ _)]
      simp [Text.joinWith, ItemHead.line, joined, unbegun]
  · rw [List.mem_append, not_or, List.mem_singleton]
    exact ⟨shows.filled, filled⟩

end ListState.Shows

/-! ## Running over a tree -/

theorem ListTree.head?_source (tree : ListTree) : tree.source.head? = some '\\' := by
  cases tree
  rw [ListTree.source]
  rfl

/-- What follows the lists behind an item starts visibly if these lists are followed so. -/
theorem ListTree.head?_sources (trees : List ListTree) {rest : Text}
    (starts : rest.head? = some '\\') : (ListTree.sources trees ++ rest).head? = some '\\' := by
  cases trees with
  | nil => exact starts
  | cons tree others =>
    rw [ListTree.sources, List.append_assoc, List.head?_append, tree.head?_source]
    rfl

theorem ListItem.head?_sources (items : List ListItem) {rest : Text}
    (starts : rest.head? = some '\\') : (ListItem.sources items ++ rest).head? = some '\\' := by
  cases items with
  | nil => exact starts
  | cons item others =>
    obtain ⟨head, nested⟩ := item
    rw [ListItem.sources, ListItem.source, ItemHead.source]
    cases head.label <;> rfl

/-- A line break in front of a marker is not written behind the end of a list. -/
theorem trimStart_marker {rest : Text} (starts : rest.head? = some '\\') :
    Text.trimStart ('\n' :: rest) = rest := by
  obtain ⟨others, rfl⟩ := List.head?_eq_some_iff.mp starts
  rfl

mutual

/-- A list inside other lists, or at the beginning, adds its lines and then ends. -/
theorem ListTree.exists_follow (tree : ListTree) {state : ListState} {stack : List ListKind}
    {lines : List Text} (shows : state.Shows stack lines) (inside : lines = [] ∨ stack ≠ [])
    (rest : Text) :
    ∃ (kind : ListKind) (last : ListState),
      last.Shows (kind :: stack) (lines ++ tree.lines stack) ∧
        state.follow (tree.source ++ rest) = last.closeList.follow (Text.trimStart rest) := by
  match tree with
  | .list kind items =>
    have begun := (shows.openList inside kind).write_blank ['\n'] (by decide)
    have starts : (endMarker kind.name ++ rest).head? = some '\\' := rfl
    obtain ⟨last, shown, follows⟩ := ListItem.exists_follow_all items begun starts
    have unread (text : Text) : Scan.skipLineOption ('\n' :: text) = '\n' :: text := rfl
    refine ⟨kind, last, shown, ?_⟩
    rw [ListTree.source, List.append_assoc, List.cons_append, List.append_assoc,
      state.follow_opening kind, unread, ← List.singleton_append,
      ListState.follow_plain (by decide), follows, last.follow_closing]

/-- An item adds its line and the lines of the lists behind it. -/
theorem ListItem.exists_follow (item : ListItem) {state : ListState} {kind : ListKind}
    {stack : List ListKind} {lines : List Text} (shows : state.Shows (kind :: stack) lines)
    {rest : Text} (starts : rest.head? = some '\\') :
    ∃ next : ListState, next.Shows (kind :: stack) (lines ++ item.lines kind stack) ∧
      state.follow (item.source ++ rest) = next.follow rest := by
  match item with
  | .item head nested =>
    have begun := (shows.startItem head).write_blank ['\n'] (by decide)
    obtain ⟨last, shown, follows⟩ := ListTree.exists_follow_all nested begun
      (List.cons_ne_nil _ _) starts
    refine ⟨last, ?_, ?_⟩
    · rwa [ListItem.lines, List.append_cons]
    · rw [ListItem.source, List.append_assoc, List.cons_append, head.follow_source,
        ← List.singleton_append, ListState.follow_plain (by decide), follows]

theorem ListItem.exists_follow_all (items : List ListItem) {state : ListState} {kind : ListKind}
    {stack : List ListKind} {lines : List Text} (shows : state.Shows (kind :: stack) lines)
    {rest : Text} (starts : rest.head? = some '\\') :
    ∃ next : ListState,
      next.Shows (kind :: stack) (lines ++ ListItem.allLines kind stack items) ∧
        state.follow (ListItem.sources items ++ rest) = next.follow rest := by
  match items with
  | [] => exact ⟨state, by rwa [ListItem.allLines, List.append_nil], rfl⟩
  | item :: others =>
    obtain ⟨middle, shown, follows⟩ := item.exists_follow shows
      (ListItem.head?_sources others starts)
    obtain ⟨last, shownAll, followsAll⟩ := ListItem.exists_follow_all others shown starts
    refine ⟨last, ?_, ?_⟩
    · rwa [ListItem.allLines, ← List.append_assoc]
    · rw [ListItem.sources, List.append_assoc, follows, followsAll]

theorem ListTree.exists_follow_all (trees : List ListTree) {state : ListState}
    {stack : List ListKind} {lines : List Text} (shows : state.Shows stack lines)
    (inside : stack ≠ []) {rest : Text} (starts : rest.head? = some '\\') :
    ∃ next : ListState, next.Shows stack (lines ++ ListTree.allLines stack trees) ∧
      state.follow (ListTree.sources trees ++ rest) = next.follow rest := by
  match trees with
  | [] => exact ⟨state, by rwa [ListTree.allLines, List.append_nil], rfl⟩
  | tree :: others =>
    obtain ⟨kind, middle, shown, follows⟩ := tree.exists_follow shows (.inr inside)
      ('\n' :: (ListTree.sources others ++ rest))
    obtain ⟨last, shownAll, followsAll⟩ :=
      ListTree.exists_follow_all others shown.closeList inside starts
    refine ⟨last, ?_, ?_⟩
    · rwa [ListTree.allLines, ← List.append_assoc]
    · rw [ListTree.sources, List.append_assoc, List.cons_append, follows,
        trimStart_marker (ListTree.head?_sources others starts), followsAll]

end

/-- The end of an outermost list ends the paragraph. -/
theorem ListState.Shows.written_closeList {state : ListState} {kind : ListKind}
    {lines : List Text} (shows : state.Shows [kind] lines) :
    state.closeList.written.reverse = Text.joinWith ['\n'] lines ++ "\n\n".toList := by
  have outermost : state.stack.tail.isEmpty = true := by rw [shows.stack_eq]; rfl
  rw [ListState.closeList, if_pos outermost, ListState.write, List.reverse_append,
    List.reverse_reverse]
  exact congrArg (· ++ _) (List.reverse_eq_iff.mpr shows.written)

/-- A tree of lists becomes the lines of its items, and the paragraph ends. -/
theorem convertLists_source (tree : ListTree) {behind : Text}
    (blank : Text.isBlankText behind = true) :
    convertLists (tree.source ++ behind) =
      Text.joinWith ['\n'] (tree.lines []) ++ "\n\n".toList := by
  obtain ⟨kind, last, shown, follows⟩ :=
    tree.exists_follow ListState.Shows.empty (.inl rfl) behind
  have skipped : Text.trimStart behind = [] :=
    List.dropWhile_eq_nil_iff.mpr fun c member => List.all_eq_true.mp blank c member
  rw [skipped, ListState.follow_nil] at follows
  calc convertLists (tree.source ++ behind)
      = (ListState.empty.follow (tree.source ++ behind)).written.reverse := rfl
    _ = last.closeList.written.reverse := by rw [follows]
    _ = Text.joinWith ['\n'] (tree.lines []) ++ "\n\n".toList := shown.written_closeList

/-- A description in an item of a list, which is in an item of a numbered list. -/
def numberedTree : ListTree :=
  .list .enumerate
    [.item ⟨none, "First".toList, by decide, by decide, by decide, by decide, by decide⟩
      [.list .itemize
        [.item ⟨none, "Inner text".toList, by decide, by decide, by decide, by decide, by decide⟩
          [.list .description
            [.item ⟨some "[Term".toList, "Meaning".toList, by decide, by decide, by decide,
              by decide, by decide⟩ []]]]],
    .item ⟨none, "Next".toList, by decide, by decide, by decide, by decide, by decide⟩ []]

theorem convertLists_source_numberedTree :
    Text.isBlankText ['\n'] = true ∧
      convertLists (numberedTree.source ++ ['\n']) =
        "1. First\n   - Inner text\n     - **[Term** Meaning\n1. Next\n\n".toList :=
  ⟨by decide, (convertLists_source numberedTree (by decide)).trans (by decide)⟩

/-- A list of one item whose label has spaces around it. -/
def paddedTree : ListTree :=
  .list .itemize
    [.item ⟨some " a ".toList, "x".toList, by decide, by decide, by decide, by decide,
      by decide⟩ []]

/-- The label of an item does not keep its spaces. -/
theorem convertLists_spacedLabel :
    convertLists paddedTree.source = "- **a** x\n\n".toList ∧
      convertLists paddedTree.source ≠ "- ** a ** x\n\n".toList := by
  decide

end Block

end LatexMarkdown
