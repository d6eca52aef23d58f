import LatexMarkdown.Proofs.ListReading

/-!
# Options of lists

The option of a list is read up to the first closing bracket and only on one line, while
brackets and braces may nest in the options of all other environments. An option that is
not read so leaves a part of itself in front of the first item, and that part shows,
whatever it is: a text shows itself, and the opening of a further list shows as the
indentation of its items.
-/

namespace LatexMarkdown

open Scan (beginMarker endMarker readEnclosed readEnclosedInLine readLineOption skipLineOption)

/-! ## Readers that stop at a closing bracket -/

/-- A front does not reach over a character that is not in it. -/
theorem Text.dropFront?_append_cons {front : Text} {c : Char} (absent : c ∉ front)
    (before after : Text) :
    dropFront? front (before ++ c :: after) =
      (dropFront? front before).map fun rest => rest ++ c :: after := by
  cases found : dropFront? front before with
  | none =>
    rw [dropFront?_eq_none_iff] at found
    exact dropFront?_eq_none_iff.mpr fun start =>
      found (prefix_of_prefix_append_cons absent start)
  | some rest =>
    rw [dropFront?_eq_some_iff.mp found, List.append_assoc]
    exact dropFront?_append front _

/-- Brackets on one line do not reach over a closing bracket. -/
theorem Scan.readEnclosedInLine_append (text rest : Text) :
    readEnclosedInLine '[' ']' (text ++ ']' :: rest) =
      (readEnclosedInLine '[' ']' (text ++ [']'])).map fun (inner, after) =>
        (inner, after ++ rest) := by
  cases text with
  | nil => rfl
  | cons c inside =>
    by_cases opens : c = '['
    · subst opens
      obtain ⟨inner, behind, spelled, closed⟩ :=
        List.eq_append_cons_of_mem (List.mem_append_right inside (List.mem_singleton_self ']'))
      have whole : inside ++ ']' :: rest = inner ++ ']' :: (behind ++ rest) := by
        rw [List.append_cons, spelled, List.append_assoc, List.cons_append]
      rw [List.cons_append, List.cons_append, whole, spelled, readEnclosedInLine,
        readEnclosedInLine, readEnclosed_append _ closed, readEnclosed_append _ closed,
        Option.filter_some, Option.filter_some]
      dsimp only
      split <;> rfl
    · have unread (others : Text) : readEnclosedInLine '[' ']' (c :: others) = none := by
        rw [readEnclosedInLine, readEnclosed, if_neg opens]
        rfl
      rw [List.cons_append, List.cons_append, unread, unread]
      rfl

theorem Scan.readLineOption_append (text rest : Text) :
    readLineOption (text ++ ']' :: rest) =
      (readLineOption (text ++ [']'])).map fun (inner, after) => (inner, after ++ rest) := by
  have shown (others : Text) : (text ++ ']' :: others).dropWhile Text.isSpaceOrTab =
      text.dropWhile Text.isSpaceOrTab ++ ']' :: others := by
    rw [List.dropWhile_append]
    split
    next empty =>
      rw [List.isEmpty_iff.mp empty]
      rfl
    · rfl
  rw [readLineOption, readLineOption, shown, shown, readEnclosedInLine_append]

theorem Scan.skipLineOption_append (text rest : Text) :
    skipLineOption (text ++ ']' :: rest) = skipLineOption (text ++ [']']) ++ rest := by
  rw [skipLineOption, skipLineOption, readLineOption_append]
  cases readLineOption (text ++ [']']) <;> simp

/-- Of an option that is not read to its end, something stays up to the closing bracket: the
option itself, or what stands behind an earlier bracket. -/
theorem Scan.exists_skipLineOption {option : Text}
    (unread : ¬ ∀ c ∈ option, c ≠ ']' ∧ c ≠ '\n') :
    ∃ left : Text, ∀ rest : Text,
      skipLineOption ('[' :: (option ++ ']' :: rest)) = left ++ ']' :: rest := by
  obtain ⟨left, spelled⟩ : ∃ left, skipLineOption ('[' :: option ++ [']']) = left ++ [']'] := by
    rw [skipLineOption]
    cases read : readLineOption ('[' :: option ++ [']']) with
    | none => exact ⟨_, rfl⟩
    | some pair =>
      obtain ⟨inner, behind⟩ := pair
      obtain ⟨shown, plain⟩ := Scan.readLineOption_eq_some_iff.mp read
      have whole : option ++ [']'] = inner ++ ']' :: behind := (List.cons.inj shown).2
      rcases List.eq_nil_or_concat' behind with rfl | ⟨left, last, rfl⟩
      · exact absurd (List.append_cancel_right whole ▸ plain) unread
      · rw [← List.cons_append, ← List.append_assoc] at whole
        obtain ⟨-, ends⟩ := List.append_inj' whole rfl
        obtain rfl := (List.cons.inj ends).1
        exact ⟨left, rfl⟩
  refine ⟨left, fun rest => ?_⟩
  rw [← List.cons_append, skipLineOption_append, spelled, List.append_assoc]
  rfl

namespace Block

/-- A marker of a list does not reach over a closing bracket. -/
theorem readListToken_append (text rest : Text) :
    readListToken (text ++ ']' :: rest) =
      (readListToken (text ++ [']'])).map fun (token, after) => (token, after ++ rest) := by
  have opening (kind : ListKind) :
      ((Text.dropFront? (beginMarker kind.name) (text ++ ']' :: rest)).map fun rest =>
        (ListToken.opening kind, skipLineOption rest)) =
      ((Text.dropFront? (beginMarker kind.name) (text ++ [']'])).map fun rest =>
        (ListToken.opening kind, skipLineOption rest)).map fun (token, after) =>
          (token, after ++ rest) := by
    have absent : ']' ∉ beginMarker kind.name := by cases kind <;> decide
    rw [Text.dropFront?_append_cons absent, Text.dropFront?_append_cons absent]
    cases Text.dropFront? (beginMarker kind.name) text with
    | none => rfl
    | some behind => simp [Scan.skipLineOption_append behind rest]
  have closing (kind : ListKind) :
      ((Text.dropFront? (endMarker kind.name) (text ++ ']' :: rest)).map fun rest =>
        (ListToken.closing, rest)) =
      ((Text.dropFront? (endMarker kind.name) (text ++ [']'])).map fun rest =>
        (ListToken.closing, rest)).map fun (token, after) => (token, after ++ rest) := by
    have absent : ']' ∉ endMarker kind.name := by cases kind <;> decide
    rw [Text.dropFront?_append_cons absent, Text.dropFront?_append_cons absent]
    cases Text.dropFront? (endMarker kind.name) text <;> simp
  have item (after : Text) : Text.dropFront? "\\item".toList (text ++ ']' :: after) =
      (Text.dropFront? "\\item".toList text).map fun rest => rest ++ ']' :: after :=
    Text.dropFront?_append_cons (by decide) text after
  have ends (behind : Text) : Text.endsWord (behind ++ ']' :: rest) =
      Text.endsWord (behind ++ [']']) := by
    cases behind <;> rfl
  have labelled (behind : Text) := Scan.readLineOption_append behind rest
  rw [readListToken, readListToken, item rest, item []]
  simp only [HOrElse.hOrElse, OrElse.orElse, Option.orElse_eq_or, Option.map_or,
    List.map_findSome?, Function.comp_def, opening, closing]
  congr 2
  cases Text.dropFront? "\\item".toList text with
  | none => rfl
  | some behind =>
    simp only [Option.map_some, Option.bind_eq_bind, Option.bind_some, ends, labelled]
    split
    · cases readLineOption (behind ++ [']']) <;> simp
    · rfl

/-! ## A text up to a closing bracket -/

theorem itemMarker_ne_nil (kind : ListKind) (label : Option Text) : itemMarker kind label ≠ [] := by
  cases label with
  | none => cases kind <;> exact List.cons_ne_nil _ _
  | some label => exact List.append_ne_nil_of_right_ne_nil _ (List.cons_ne_nil _ _)

namespace ListState

variable (state : ListState) (trims : Bool)

theorem add_trimmed_keep (c : Char) (pieces : ListPieces) :
    state.add ((pieces.keep c).trimmed trims) =
      if trims && Text.isBlank c then state.add (pieces.trimmed true)
      else (state.write [c]).add pieces := by
  rw [ListPieces.trimmed_keep]
  split
  · rfl
  · exact state.add_keep c pieces

/-- A text that starts visibly follows without a loss. -/
theorem add_trimmed_follow {rest : Text} (starts : rest.head? = some '\\') :
    state.add ((listPieces rest).trimmed trims) = state.follow rest := by
  cases trims with
  | false => rfl
  | true =>
    obtain ⟨others, rfl⟩ := List.head?_eq_some_iff.mp starts
    rw [← follow_trimStart]
    rfl

/-- Once something is written, it never becomes nothing; only the opening of a list writes
nothing. -/
theorem written_mark {token : ListToken} (empty : (state.mark token).written = []) :
    state.written = [] ∧ (state.mark token).stack.length = state.stack.length + 1 := by
  cases token with
  | opening kind => exact ⟨empty, rfl⟩
  | closing =>
    rw [mark, closeList, write] at empty
    split at empty <;> simp at empty
  | item label =>
    rw [mark, written_startItem] at empty
    have shown := (List.append_eq_nil_iff.mp empty).1
    exact absurd (List.append_eq_nil_iff.mp (List.reverse_eq_nil_iff.mp shown)).2
      (itemMarker_ne_nil _ label)

/-- How a state behind a closing bracket comes from a state before it: if nothing is written,
nothing was, and a further list is open, unless the bracket belongs to a marker that was read
before. -/
def Leads (state : ListState) (inMarker : Bool) (next : ListState) : Prop :=
  next.written = [] →
    state.written = [] ∧ state.stack.length + (if inMarker then 0 else 1) ≤ next.stack.length

namespace Leads

variable {state next : ListState}

theorem refl (state : ListState) : state.Leads true state :=
  fun empty => ⟨empty, Nat.le_refl _⟩

theorem weaken (leads : state.Leads false next) (inMarker : Bool) :
    state.Leads inMarker next := by
  intro empty
  obtain ⟨unwritten, deeper⟩ := leads empty
  refine ⟨unwritten, Nat.le_trans ?_ deeper⟩
  split <;> simp

theorem of_write {c : Char} {inMarker : Bool} (leads : (state.write [c]).Leads inMarker next)
    (other : Bool) : state.Leads other next := by
  intro empty
  have written := (leads empty).1
  simp [write] at written

theorem of_mark {token : ListToken} {inMarker : Bool}
    (leads : (state.mark token).Leads inMarker next) : state.Leads false next := by
  intro empty
  obtain ⟨unwritten, deeper⟩ := leads empty
  obtain ⟨before, opened⟩ := state.written_mark unwritten
  refine ⟨before, Nat.le_trans ?_ deeper⟩
  rw [opened]
  exact Nat.le_add_right _ _

end Leads

end ListState

/-- How many of the next characters are taken already. -/
def Coverage.width : Coverage → Nat
  | .free => 0
  | .marker width | .escaped width => width

/-- Whether the next character belongs to a marker. -/
def Coverage.inMarker : Coverage → Bool
  | .marker (_ + 1) => true
  | .free | .marker 0 | .escaped _ => false

/-- What is taken up to a position is looked at no more. -/
theorem listPiecesFrom_width {coverage : Coverage} (none : coverage.width = 0)
    (cursor : Scan.Cursor) (text : Text) :
    listPiecesFrom cursor coverage text = listPiecesFrom cursor .free text := by
  cases coverage with
  | free => rfl
  | marker width | escaped width =>
    obtain rfl : width = 0 := none
    cases text <;> rfl

/-- A closing bracket belongs to a marker, or it is written. -/
theorem exists_add_closing (cursor : Scan.Cursor) {coverage : Coverage}
    (within : coverage.width ≤ 1) (state : ListState) (trims : Bool) :
    ∃ next : ListState, state.Leads coverage.inMarker next ∧
      ∀ rest : Text, rest.head? = some '\\' →
        state.add ((listPiecesFrom cursor coverage (']' :: rest)).trimmed trims) =
          next.follow rest := by
  have behind (rest : Text) : listPiecesFrom (cursor.advance ']') .free rest = listPieces rest :=
    listPiecesFrom_free (Scan.escapesNext_of_ne (c := ']') (by decide) cursor.escaped) rest
  have written (other : Bool) : state.Leads other (state.write [']']) :=
    (ListState.Leads.refl (state.write [']'])).of_write other
  have keeps (rest : Text) : state.add (((listPieces rest).keep ']').trimmed trims) =
      (state.write [']']).follow rest := by
    have visible : Text.isBlank ']' = false := by decide
    rw [ListState.add_trimmed_keep, visible, Bool.and_false]
    rfl
  have free (rest : Text) : state.add ((listPiecesFrom cursor .free (']' :: rest)).trimmed trims) =
      (state.write [']']).follow rest := by
    rw [listPiecesFrom_keep (readListToken_of_ne (by decide) rest), behind, keeps]
  match coverage with
  | .free => exact ⟨_, written _, fun rest _ => free rest⟩
  | .marker 0 | .escaped 0 =>
    refine ⟨_, written _, fun rest _ => ?_⟩
    rw [listPiecesFrom_width rfl]
    exact free rest
  | .marker (width + 1) =>
    obtain rfl : width = 0 := by simpa [Coverage.width] using within
    refine ⟨state, .refl state, fun rest starts => ?_⟩
    rw [listPiecesFrom, listPiecesFrom_width rfl, behind]
    exact state.add_trimmed_follow trims starts
  | .escaped (width + 1) =>
    obtain rfl : width = 0 := by simpa [Coverage.width] using within
    refine ⟨_, written _, fun rest _ => ?_⟩
    rw [listPiecesFrom, listPiecesFrom_width rfl, behind, keeps]

/-- A marker before a closing bracket covers as much whatever follows the bracket. -/
theorem listPiecesFrom_token {c : Char} {text after : Text} {token : ListToken}
    (read : readListToken (c :: text ++ [']']) = some (token, after)) (cursor : Scan.Cursor)
    (rest : Text) :
    listPiecesFrom cursor .free (c :: (text ++ ']' :: rest)) =
      if cursor.escaped then (listPiecesFrom (cursor.advance c)
        (.escaped (text.length + 1 - after.length)) (text ++ ']' :: rest)).keep c
      else (listPiecesFrom (cursor.advance c)
        (.marker (text.length + 1 - after.length)) (text ++ ']' :: rest)).mark token := by
  have covered : (text ++ ']' :: rest).length - (after ++ rest).length =
      text.length + 1 - after.length := by
    simp only [List.length_append, List.length_cons]
    omega
  have whole := readListToken_append (c :: text) rest
  rw [read, Option.map_some, List.cons_append] at whole
  rw [listPiecesFrom, whole]
  · simp only [covered]
  all_goals simp

/-- What a text up to a closing bracket writes does not depend on what follows. -/
theorem exists_add_bracket (text : Text) (cursor : Scan.Cursor) (coverage : Coverage)
    (within : coverage.width ≤ text.length + 1) (state : ListState) (trims : Bool) :
    ∃ next : ListState, state.Leads coverage.inMarker next ∧
      ∀ rest : Text, rest.head? = some '\\' →
        state.add ((listPiecesFrom cursor coverage (text ++ ']' :: rest)).trimmed trims) =
          next.follow rest := by
  induction text generalizing cursor coverage state trims with
  | nil => exact exists_add_closing cursor within state trims
  | cons c text inductionHypothesis =>
    have kept (coverage : Coverage) (within : coverage.width ≤ text.length + 1) :
        ∃ next : ListState, state.Leads coverage.inMarker next ∧
          ∀ rest : Text, rest.head? = some '\\' →
            state.add (((listPiecesFrom (cursor.advance c) coverage
              (text ++ ']' :: rest)).keep c).trimmed trims) = next.follow rest := by
      simp only [ListState.add_trimmed_keep]
      split
      · exact inductionHypothesis _ _ within state true
      · obtain ⟨next, leads, follows⟩ := inductionHypothesis _ _ within (state.write [c]) false
        exact ⟨next, leads.of_write _, follows⟩
    have free : ∃ next : ListState, state.Leads false next ∧
        ∀ rest : Text, rest.head? = some '\\' →
          state.add ((listPiecesFrom cursor .free (c :: text ++ ']' :: rest)).trimmed trims) =
            next.follow rest := by
      cases found : readListToken (c :: text ++ [']']) with
      | none =>
        obtain ⟨next, leads, follows⟩ := kept .free (Nat.zero_le _)
        refine ⟨next, leads, fun rest starts => ?_⟩
        rw [← follows rest starts, List.cons_append, listPiecesFrom_keep]
        exact (readListToken_append (c :: text) rest).trans (by rw [found]; rfl)
      | some pair =>
        obtain ⟨token, after⟩ := pair
        have within : text.length + 1 - after.length ≤ text.length + 1 := Nat.sub_le _ _
        simp only [List.cons_append, listPiecesFrom_token found cursor]
        split
        · exact kept (.escaped _) within
        · obtain ⟨next, leads, follows⟩ := inductionHypothesis (cursor.advance c)
            (.marker _) within (state.mark token) token.trims
          refine ⟨next, leads.of_mark, fun rest starts => ?_⟩
          rw [ListState.add_trimmed_mark]
          exact follows rest starts
    match coverage with
    | .free => exact free
    | .marker 0 | .escaped 0 =>
      obtain ⟨next, leads, follows⟩ := free
      refine ⟨next, leads, fun rest starts => ?_⟩
      rw [listPiecesFrom_width rfl]
      exact follows rest starts
    | .marker (width + 1) =>
      have shorter : width ≤ text.length + 1 := by simpa [Coverage.width] using within
      obtain ⟨next, leads, follows⟩ :=
        inductionHypothesis (cursor.advance c) (.marker width) shorter state trims
      refine ⟨next, ?_, follows⟩
      cases width with
      | zero => exact leads.weaken _
      | succ width => exact leads
    | .escaped (width + 1) =>
      have shorter : width ≤ text.length + 1 := by simpa [Coverage.width] using within
      exact kept (.escaped width) shorter

/-! ## Vanishing options -/

theorem convertLists_eq (text : Text) :
    convertLists text = (ListState.empty.follow text).written.reverse :=
  rfl

/-- The first item that is written is indented if its list is inside another one. -/
theorem ListState.head?_startItem {state : ListState} (unwritten : state.written = [])
    (nested : 1 < state.stack.length) :
    (state.startItem none).written.reverse.head? = some ' ' := by
  obtain ⟨written, stack, begun⟩ := state
  obtain rfl : written = [] := unwritten
  match stack with
  | kind :: around :: others =>
    have wide : 0 < ((around :: others).map ListKind.markerWidth).sum := by
      rw [List.map_cons, List.sum_cons]
      cases around <;> exact Nat.add_pos_left (by decide) _
    obtain ⟨width, spelled⟩ := Nat.exists_eq_add_one.mpr wide
    rw [written_startItem, List.tail_cons, spelled]
    simp [trimWritten, Text.repeated, List.replicate_succ]

/-- An option that is not read to its end leaves something in front of the items: a text, or a
list that is open inside the first one. -/
theorem exists_follow_option (kind : ListKind) {option : Text}
    (unread : ¬ ∀ c ∈ option, c ≠ ']' ∧ c ≠ '\n') :
    ∃ next : ListState, (next.written = [] → 1 < next.stack.length) ∧
      ∀ rest : Text, rest.head? = some '\\' →
        ListState.empty.follow (beginMarker kind.name ++ '[' :: (option ++ ']' :: rest)) =
          next.follow rest := by
  obtain ⟨left, skipped⟩ := Scan.exists_skipLineOption unread
  obtain ⟨next, leads, follows⟩ := exists_add_bracket left .start .free (Nat.zero_le _)
    (ListState.empty.openList kind) false
  refine ⟨next, fun unwritten => (leads unwritten).2, fun rest starts => ?_⟩
  rw [ListState.follow_opening, skipped]
  exact follows rest starts

/-- The option of a list vanishes if it stands on a single line and holds no closing bracket, and
only then. It does not matter how brackets and braces nest in it. -/
theorem convertLists_option_iff (kind : ListKind) (option : Text) :
    (∀ rest : Text, "\\item".toList <+: rest →
      convertLists (beginMarker kind.name ++ '[' :: (option ++ ']' :: rest)) =
        convertLists (beginMarker kind.name ++ rest)) ↔
      ∀ c ∈ option, c ≠ ']' ∧ c ≠ '\n' := by
  have unskipped {rest : Text} (starts : rest.head? = some '\\') : skipLineOption rest = rest := by
    refine Scan.skipLineOption_of_head? fun c first => ?_
    obtain rfl : '\\' = c := Option.some.inj (starts.symm.trans first)
    decide
  have head {rest : Text} (starts : "\\item".toList <+: rest) : rest.head? = some '\\' := by
    obtain ⟨others, rfl⟩ := starts
    rfl
  constructor
  · intro vanishes
    by_contra unread
    obtain ⟨next, shows, follows⟩ := exists_follow_option kind unread
    have same (rest : Text) (starts : "\\item".toList <+: rest) :
        (next.follow rest).written = ((ListState.empty.openList kind).follow rest).written := by
      have whole := vanishes rest starts
      rw [convertLists_eq, convertLists_eq, follows rest (head starts), ListState.follow_opening,
        unskipped (head starts)] at whole
      exact List.reverse_injective whole
    -- A longer name is no marker, so it stays behind all that is written.
    have unwritten : next.written = [] :=
      List.append_cancel_left (same "\\itemx".toList ⟨['x'], rfl⟩)
    have indented := ListState.head?_startItem unwritten (shows unwritten)
    have ends : Text.endsWord [] = true := rfl
    have item (state : ListState) : state.follow "\\item".toList = state.startItem none :=
      state.follow_item ends rfl
    have flush : ((ListState.empty.openList kind).startItem none).written.reverse.head? ≠
        some ' ' := by
      cases kind <;> decide
    rw [← item, same "\\item".toList ⟨[], rfl⟩, item] at indented
    exact flush indented
  · intro plain rest starts
    have read : readLineOption ('[' :: (option ++ ']' :: rest)) = some (option, rest) :=
      Scan.readLineOption_eq_some_iff.mpr ⟨rfl, plain⟩
    have skipped : skipLineOption ('[' :: (option ++ ']' :: rest)) = rest := by
      rw [skipLineOption, read]
    rw [convertLists_eq, convertLists_eq, ListState.follow_opening, ListState.follow_opening,
      skipped, unskipped (head starts)]

/-- The brackets in an option with a pattern for labels nest in its braces. The bracket reader
passes over them, and yet the option does not vanish. -/
theorem convertLists_bracedOption :
    Scan.readBracketed "[label=\x7b[\\arabic*]\x7d]".toList =
        some ("label=\x7b[\\arabic*]\x7d".toList, []) ∧
      convertLists (beginMarker ListKind.enumerate.name ++
        "[label=\x7b[\\arabic*]\x7d]\\item x".toList) = "\x7d]\n\n1. x".toList ∧
      convertLists (beginMarker ListKind.enumerate.name ++ "\\item x".toList) =
        "1. x".toList := by
  decide

end Block

end LatexMarkdown
