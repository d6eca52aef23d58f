import LatexMarkdown.Block.List
import LatexMarkdown.Proofs.DeclaredTheorem
import LatexMarkdown.Proofs.ReferenceNumbers
import LatexMarkdown.Proofs.Unescaped

/-!
# Reading lists piece by piece

The markers of lists are found from left to right, and each is written together
with the text up to the next one. So the output of a text can be followed from
its front: what has been written is a state, a piece of plain text is added to
it, and a marker changes it. What has been read does not matter otherwise, as
long as no escape reaches into what follows.
-/

namespace LatexMarkdown

open Scan (beginMarker endMarker escapesAfter escapesNext skipLineOption readLineOption)

/-- An option on a single line is what stands in the first brackets after spaces. -/
theorem Scan.readLineOption_eq_some_iff {text inner rest : Text} :
    readLineOption text = some (inner, rest) ↔
      text.dropWhile Text.isSpaceOrTab = '[' :: (inner ++ ']' :: rest) ∧
        ∀ c ∈ inner, c ≠ ']' ∧ c ≠ '\n' := by
  simp only [readLineOption, Scan.readEnclosedInLine, Option.filter_eq_some_iff,
    Scan.readEnclosed_eq_some_iff, List.all_eq_true, decide_eq_true_eq]
  constructor
  · rintro ⟨⟨closed, spelled⟩, inLine⟩
    exact ⟨spelled, fun c member => ⟨ne_of_mem_of_not_mem member closed, inLine c member⟩⟩
  · rintro ⟨spelled, plain⟩
    exact ⟨⟨fun member => (plain _ member).1 rfl, spelled⟩, fun c member => (plain c member).2⟩

namespace Block

/-! ## Pieces -/

/-- The pieces of a text that stands behind no escape. -/
def listPieces (text : Text) : ListPieces :=
  listPiecesFrom .start .free text

/-- Only whether it is escaped matters of a position. -/
theorem listPiecesFrom_congr {cursor other : Scan.Cursor} (same : cursor.escaped = other.escaped)
    (coverage : Coverage) (text : Text) :
    listPiecesFrom cursor coverage text = listPiecesFrom other coverage text := by
  induction text generalizing cursor other coverage with
  | nil => cases coverage <;> simp [listPiecesFrom]
  | cons c rest inductionHypothesis =>
    have next : (cursor.advance c).escaped = (other.advance c).escaped := by
      simp only [Scan.Cursor.advance, same]
    have later (coverage : Coverage) := inductionHypothesis next coverage
    cases coverage with
    | free => simp only [listPiecesFrom, later, same]
    | marker width => cases width <;> simp only [listPiecesFrom, later, same]
    | escaped width => cases width <;> simp only [listPiecesFrom, later, same]

/-- Behind a position that is not escaped the pieces are those of the text by itself. -/
theorem listPiecesFrom_free {cursor : Scan.Cursor} (unescaped : cursor.escaped = false)
    (text : Text) : listPiecesFrom cursor .free text = listPieces text :=
  listPiecesFrom_congr unescaped .free text

/-- What belongs to a marker is passed over. -/
theorem listPiecesFrom_marker (cursor : Scan.Cursor) (covered rest : Text) :
    listPiecesFrom cursor (.marker covered.length) (covered ++ rest) =
      listPiecesFrom (cursor.advanceOver covered) .free rest := by
  induction covered generalizing cursor with
  | nil => cases rest <;> rfl
  | cons c covered inductionHypothesis => exact inductionHypothesis (cursor.advance c)

/-- A character that starts no marker belongs to the text before the first one. -/
theorem listPiecesFrom_keep {c : Char} {rest : Text} (unread : readListToken (c :: rest) = none)
    (cursor : Scan.Cursor) :
    listPiecesFrom cursor .free (c :: rest) =
      (listPiecesFrom (cursor.advance c) .free rest).keep c := by
  rw [listPiecesFrom, unread]
  all_goals simp

/-- Only a backslash starts a marker, and only it escapes what is behind it. -/
theorem listPieces_keep {c : Char} (different : c ≠ '\\') (rest : Text) :
    listPieces (c :: rest) = (listPieces rest).keep c := by
  rw [listPieces, listPiecesFrom_keep (readListToken_of_ne different _)]
  exact congrArg _ (listPiecesFrom_free (Scan.escapesNext_of_ne different false) rest)

/-- A marker that nothing escapes is taken with what it reads. -/
theorem listPieces_marker {marker rest : Text} {token : ListToken} (nonempty : marker ≠ [])
    (read : readListToken (marker ++ rest) = some (token, rest))
    (closed : escapesAfter false marker = false) :
    listPieces (marker ++ rest) = (listPieces rest).mark token := by
  obtain ⟨c, others, rfl⟩ := List.exists_cons_of_ne_nil nonempty
  rw [List.cons_append] at read ⊢
  have behind : ((Scan.Cursor.start.advance c).advanceOver others).escaped = false := by
    rw [Scan.Cursor.advanceOver_escaped_eq]
    exact closed
  have width : (others ++ rest).length - rest.length = others.length := by simp
  rw [listPieces, listPiecesFrom, read]
  · simp only [Scan.Cursor.start, width]
    rw [if_neg (by decide), listPiecesFrom_marker]
    exact congrArg _ (listPiecesFrom_free behind rest)
  all_goals simp

/-! ## States -/

namespace ListState

/-- The state behind pieces that are written from a state on. -/
def add (state : ListState) (pieces : ListPieces) : ListState :=
  pieces.marked.foldl addMarked (state.write pieces.before)

/-- The state behind a text, which stands behind no escape. -/
def follow (state : ListState) (text : Text) : ListState :=
  state.add (listPieces text)

/-- A list begins. -/
def openList (state : ListState) (kind : ListKind) : ListState :=
  { state with stack := kind :: state.stack, begun := state.begun || state.stack.isEmpty }

/-- The innermost list ends. -/
def closeList (state : ListState) : ListState :=
  ({ state.trimWritten with stack := state.stack.tail } : ListState).write
    (if state.stack.tail.isEmpty then "\n\n".toList else ['\n'])

/-- The state behind a marker. -/
def mark (state : ListState) : ListToken → ListState
  | .opening kind => state.openList kind
  | .closing => state.closeList
  | .item label => state.startItem label

/-- An item starts on a new line, unless nothing is written, with the markers of the lists around
its own as indentation. -/
theorem written_startItem (state : ListState) (label : Option Text) :
    (state.startItem label).written =
      ((if state.trimWritten.written.isEmpty then []
          else if state.begun then "\n\n".toList else ['\n']) ++
        Text.repeated (state.stack.tail.map ListKind.markerWidth).sum ' ' ++
        itemMarker (state.stack.headD .itemize) label).reverse ++ state.trimWritten.written := by
  rw [List.sum_eq_foldl, List.foldl_map]
  rfl

theorem write_append (state : ListState) (first second : Text) :
    state.write (first ++ second) = (state.write first).write second := by
  simp [write]

theorem follow_nil (state : ListState) : state.follow [] = state :=
  rfl

theorem add_keep (state : ListState) (c : Char) (pieces : ListPieces) :
    state.add (pieces.keep c) = (state.write [c]).add pieces := by
  rw [add, add, ListPieces.keep, ← write_append]
  rfl

/-- A text without a backslash is written as it is. -/
theorem follow_plain {text : Text} (plain : '\\' ∉ text) (state : ListState) (rest : Text) :
    state.follow (text ++ rest) = (state.write text).follow rest := by
  induction text generalizing state with
  | nil => rfl
  | cons c others inductionHypothesis =>
    rw [List.mem_cons, not_or] at plain
    rw [List.cons_append, follow, listPieces_keep (Ne.symm plain.1), add_keep, ← follow,
      inductionHypothesis plain.2, ← write_append]
    rfl

end ListState

/-! ## Blanks behind markers -/

/-- Pieces whose front blanks are dropped, where they stand behind a marker that drops them. -/
def ListPieces.trimmed (trims : Bool) (pieces : ListPieces) : ListPieces :=
  if trims then ⟨Text.trimStart pieces.before, pieces.marked⟩ else pieces

/-- Whether blanks behind a marker are dropped. -/
def ListToken.trims : ListToken → Bool
  | .opening _ => false
  | .closing | .item _ => true

theorem ListState.add_trimmed_mark (state : ListState) (trims : Bool) (token : ListToken)
    (pieces : ListPieces) :
    state.add ((pieces.mark token).trimmed trims) =
      (state.mark token).add (pieces.trimmed token.trims) := by
  cases trims <;> cases token <;> rfl

theorem ListPieces.trimmed_keep (trims : Bool) (c : Char) (pieces : ListPieces) :
    (pieces.keep c).trimmed trims =
      if trims && Text.isBlank c then pieces.trimmed true else pieces.keep c := by
  cases trims with
  | false => rfl
  | true =>
    cases blank : Text.isBlank c with
    | true =>
      have dropped : Text.trimStart (c :: pieces.before) = Text.trimStart pieces.before :=
        List.dropWhile_cons_of_pos blank
      rw [trimmed, if_pos rfl, keep, dropped]
      rfl
    | false =>
      have kept : Text.trimStart (c :: pieces.before) = c :: pieces.before :=
        List.dropWhile_cons_of_neg (by rw [blank]; exact Bool.false_ne_true)
      rw [trimmed, if_pos rfl, keep, kept]
      rfl

/-- Blanks in front of a text stand in front of its first piece. -/
theorem listPieces_trimStart (text : Text) :
    listPieces (Text.trimStart text) = (listPieces text).trimmed true := by
  induction text with
  | nil => rfl
  | cons c rest inductionHypothesis =>
    cases blank : Text.isBlank c with
    | true =>
      have different : c ≠ '\\' := by
        rintro rfl
        exact absurd blank (by decide)
      have dropped : Text.trimStart (c :: rest) = Text.trimStart rest :=
        List.dropWhile_cons_of_pos blank
      rw [listPieces_keep different, ListPieces.trimmed_keep, blank, dropped]
      exact inductionHypothesis
    | false =>
      have shown : Text.trimStart (c :: rest) = c :: rest :=
        List.dropWhile_cons_of_neg (by rw [blank]; exact Bool.false_ne_true)
      rw [shown]
      cases read : readListToken (c :: rest) with
      | none =>
        rw [listPieces, listPiecesFrom_keep read, ListPieces.trimmed_keep, blank]
        rfl
      | some found =>
        rw [listPieces, listPiecesFrom, read]
        · rfl
        all_goals simp

theorem ListState.follow_trimStart (state : ListState) (text : Text) :
    state.follow (Text.trimStart text) = state.add ((listPieces text).trimmed true) := by
  rw [follow, listPieces_trimStart]

/-! ## Markers -/

/-- A marker that nothing escapes changes the state, and what is behind it follows. -/
theorem ListState.follow_marker {marker rest : Text} {token : ListToken} (nonempty : marker ≠ [])
    (read : readListToken (marker ++ rest) = some (token, rest))
    (closed : escapesAfter false marker = false) (state : ListState) :
    state.follow (marker ++ rest) =
      (state.mark token).add ((listPieces rest).trimmed token.trims) := by
  rw [follow, listPieces_marker nonempty read closed]
  exact state.add_trimmed_mark false token _

theorem readListToken_opening (kind : ListKind) (rest : Text) :
    readListToken (beginMarker kind.name ++ rest) =
      some (.opening kind, skipLineOption rest) := by
  cases kind <;> rfl

theorem readListToken_closing (kind : ListKind) (rest : Text) :
    readListToken (endMarker kind.name ++ rest) = some (.closing, rest) := by
  cases kind <;> rfl

theorem readListToken_item {rest : Text} (ends : Text.endsWord rest = true) :
    readListToken ("\\item".toList ++ rest) =
      match readLineOption rest with
      | some (label, behind) => some (.item (some label), behind)
      | none => some (.item none, rest) := by
  have item : readListToken ("\\item".toList ++ rest) =
      if Text.endsWord rest then
        match readLineOption rest with
        | some (label, behind) => some (.item (some label), behind)
        | none => some (.item none, rest)
      else none := rfl
  rw [item, if_pos ends]

/-- Nothing is escaped behind the marker of an environment. -/
theorem escapesAfter_beginMarker (escaped : Bool) (name : Text) :
    escapesAfter escaped (beginMarker name) = false :=
  Scan.escapesAfter_concat (by decide) escaped ("\\begin".toList ++ '{' :: name)

theorem escapesAfter_endMarker (escaped : Bool) (name : Text) :
    escapesAfter escaped (endMarker name) = false :=
  Scan.escapesAfter_concat (by decide) escaped ("\\end".toList ++ '{' :: name)

namespace ListState

variable (state : ListState) (kind : ListKind)

/-- A list begins behind its marker and an option on the same line. -/
theorem follow_opening (text : Text) :
    state.follow (beginMarker kind.name ++ text) =
      (state.openList kind).follow (skipLineOption text) := by
  obtain ⟨covered, spelled, closed⟩ : ∃ covered, text = covered ++ skipLineOption text ∧
      escapesAfter false covered = false := by
    rw [skipLineOption]
    cases read : readLineOption text with
    | none => exact ⟨[], rfl, rfl⟩
    | some pair =>
      obtain ⟨shown, -⟩ := Scan.readLineOption_eq_some_iff.mp read
      refine ⟨(text.takeWhile Text.isSpaceOrTab ++ '[' :: pair.1) ++ [']'], ?_,
        Scan.escapesAfter_concat (by decide) _ _⟩
      simpa [shown] using (List.takeWhile_append_dropWhile (p := Text.isSpaceOrTab) (l := text)).symm
  have read := readListToken_opening kind text
  rw [spelled, ← List.append_assoc, ← spelled] at read
  have nonempty : beginMarker kind.name ++ covered ≠ [] :=
    List.append_ne_nil_of_left_ne_nil (Scan.beginMarker_ne_nil _) _
  have closes : escapesAfter false (beginMarker kind.name ++ covered) = false := by
    rw [Scan.escapesAfter_append, escapesAfter_beginMarker, closed]
  have follows := follow_marker nonempty read closes state
  rwa [List.append_assoc, ← spelled] at follows

/-- A list ends, and the blanks behind its marker are not written. -/
theorem follow_closing (text : Text) :
    state.follow (endMarker kind.name ++ text) =
      state.closeList.follow (Text.trimStart text) := by
  rw [follow_trimStart]
  exact follow_marker (Scan.endMarker_ne_nil _) (readListToken_closing kind text)
    (escapesAfter_endMarker false _) state

/-- An item without a label starts. -/
theorem follow_item {text : Text} (ends : Text.endsWord text = true)
    (unlabelled : readLineOption text = none) :
    state.follow ("\\item".toList ++ text) =
      (state.startItem none).follow (Text.trimStart text) := by
  have read := readListToken_item ends
  rw [unlabelled] at read
  rw [follow_trimStart]
  exact follow_marker (List.cons_ne_nil _ _) read (by decide) state

/-- An item with a label starts. -/
theorem follow_labelledItem {label : Text} (plain : ∀ c ∈ label, c ≠ ']' ∧ c ≠ '\n')
    (text : Text) :
    state.follow ("\\item".toList ++ '[' :: (label ++ ']' :: text)) =
      (state.startItem (some label)).follow (Text.trimStart text) := by
  have labelled : readLineOption ('[' :: (label ++ ']' :: text)) = some (label, text) :=
    Scan.readLineOption_eq_some_iff.mpr ⟨rfl, plain⟩
  have ends : Text.endsWord ('[' :: (label ++ ']' :: text)) = true :=
    show (!Text.isWordCharacter '[') = true by decide
  have read := readListToken_item ends
  rw [labelled] at read
  have spelled : "\\item".toList ++ '[' :: (label ++ ']' :: text) =
      ("\\item".toList ++ '[' :: label) ++ [']'] ++ text := by simp
  rw [spelled] at read ⊢
  rw [follow_trimStart]
  exact follow_marker (by simp) read (Scan.escapesAfter_concat (by decide) _ _) state

end ListState

end Block

end LatexMarkdown
