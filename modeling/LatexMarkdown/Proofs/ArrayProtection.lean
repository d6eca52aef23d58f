import LatexMarkdown.Proofs.ArrayPlace

/-!
# No array escapes

Arrays are stored in a pass of their own, which leaves those inside formulas to the passes
over formulas. In a document whose formulas close what they open, both agree on what is
inside a formula: behind them a token stands for every array and every formula.
-/

namespace LatexMarkdown.Table

open Scan Math

/-! ## The pass over arrays, step by step -/

section Steps

variable {σ : Type} {answer : σ → Environment → σ × Text} {cursor : Cursor}
  {before pending : Text}

/-- Where nothing is covered it does not matter whether the last match was answered. -/
theorem editArraysFrom_uncovered (state : σ) (answered : Bool) (text : Text) :
    editArraysFrom answer state cursor before pending 0 answered text =
      editArraysFrom answer state cursor before pending 0 false text := by
  cases text <;> rfl

/-- Covered characters are pending, unless they were answered. -/
theorem editArraysFrom_covered (state : σ) (answered : Bool) (covered rest : Text) :
    editArraysFrom answer state cursor before pending covered.length answered (covered ++ rest) =
      editArraysFrom answer state (cursor.advanceOver covered) (covered.reverse ++ before)
        (if answered then pending else covered.reverse ++ pending) 0 false rest := by
  induction covered generalizing cursor before pending with
  | nil =>
    rw [List.reverse_nil, List.nil_append, List.nil_append, List.nil_append, ite_self]
    exact editArraysFrom_uncovered state answered rest
  | cons c others inductionHypothesis =>
    rw [List.cons_append, List.length_cons, editArraysFrom, inductionHypothesis,
      List.reverse_cons, List.append_assoc, List.append_assoc]
    cases answered <;> rfl

/-- A character at which no array starts is pending. -/
theorem editArraysFrom_pending {c : Char} {rest : Text}
    (unread : cursor.escaped = true ∨ arrays.rest? (c :: rest) = none) (state : σ)
    (answered : Bool) :
    editArraysFrom answer state cursor before pending 0 answered (c :: rest) =
      editArraysFrom answer state (cursor.advance c) (c :: before) (c :: pending) 0 false rest := by
  have silent : readEnvironment "array".toList 1 1 cursor (c :: rest) = none :=
    Kind.readEnvironment_of_unread unread
  rw [editArraysFrom, silent]

/-- An array without a place is pending as a whole. -/
theorem editArraysFrom_inside (free : cursor.escaped = false) {array rest : Text}
    (nonempty : array ≠ []) (read : arrays.rest? (array ++ rest) = some rest)
    (place : arrayPlace? before pending rest = none) (state : σ) :
    editArraysFrom answer state cursor before pending 0 false (array ++ rest) =
      editArraysFrom answer state (cursor.advanceOver array) (array.reverse ++ before)
        (array.reverse ++ pending) 0 false rest := by
  obtain ⟨c, others, rfl⟩ := List.exists_cons_of_ne_nil nonempty
  rw [arrays, Kind.rest?_environment free, Option.map_eq_some_iff] at read
  obtain ⟨⟨found, last⟩, read, rfl⟩ := read
  have width : (others ++ last).length - last.length = others.length := by simp
  rw [List.cons_append] at read ⊢
  rw [editArraysFrom, read]
  simp only [place, width, editArraysFrom_covered, Bool.false_eq_true, if_false, List.reverse_cons,
    List.append_assoc, List.singleton_append]
  rfl

/-- An array with a place gives way to a token, with all that belongs to its formula. -/
theorem editArraysFrom_placed (tokenizes : Kind.Tokenizes answer id)
    (free : cursor.escaped = false) {matched rest outside : Text} {width : Nat}
    (nonempty : matched ≠ []) (read : arrays.rest? (matched ++ outside) = some rest)
    (place : arrayPlace? before pending rest = some (width, outside)) (state : σ) :
    ∃ reached index,
      (editArraysFrom answer state cursor before pending 0 false (matched ++ outside)).2 =
        (pending.drop width).reverse ++ Fragment.token index ++
          (editArraysFrom answer reached (cursor.advanceOver matched) (matched.reverse ++ before)
            [] 0 false outside).2 := by
  obtain ⟨c, others, rfl⟩ := List.exists_cons_of_ne_nil nonempty
  rw [arrays, Kind.rest?_environment free, Option.map_eq_some_iff] at read
  obtain ⟨⟨found, last⟩, read, rfl⟩ := read
  obtain ⟨reached, index, answered⟩ := tokenizes state found
  have covered : (others ++ outside).length - outside.length = others.length := by simp
  refine ⟨reached, index, ?_⟩
  rw [List.cons_append] at read ⊢
  rw [editArraysFrom, read]
  simp only [place, answered, id_eq, covered, editArraysFrom_covered, if_true, List.reverse_cons,
    List.append_assoc, List.singleton_append]
  rfl

/-- A piece in which no array starts is pending. -/
theorem editArraysFrom_unread {piece after : Text}
    (unread : Everywhere (fun suffix => arrays.rest? (suffix ++ after) = none) cursor.escaped piece)
    (state : σ) :
    editArraysFrom answer state cursor before pending 0 false (piece ++ after) =
      editArraysFrom answer state (cursor.advanceOver piece) (piece.reverse ++ before)
        (piece.reverse ++ pending) 0 false after := by
  induction piece generalizing cursor before pending with
  | nil => rfl
  | cons c rest inductionHypothesis =>
    obtain ⟨here, later⟩ := unread
    have silent : cursor.escaped = true ∨ arrays.rest? (c :: (rest ++ after)) = none := by
      cases escaped : cursor.escaped with
      | true => exact .inl rfl
      | false => exact .inr (here escaped)
    have goesOn : Everywhere (fun suffix => arrays.rest? (suffix ++ after) = none)
        (cursor.advance c).escaped rest := later
    rw [List.cons_append, editArraysFrom_pending silent, inductionHypothesis goesOn]
    simp only [List.reverse_cons, List.append_assoc, List.singleton_append]
    rfl

/-- What is read as an array is an array in front of the rest. -/
theorem exists_array {text behind : Text} (read : arrays.rest? text = some behind) :
    ∃ array, array ≠ [] ∧ text = array ++ behind := by
  obtain ⟨body, whole⟩ := Kind.exists_body read
  refine ⟨arrays.opening ++ (body ++ arrays.closing), List.cons_ne_nil _ _, ?_⟩
  rw [whole, List.append_assoc, List.append_assoc]

/-- What is written of a piece, and what of it is still pending, make up the piece or a
token. -/
def Accounts (pending text written left : Text) : Prop :=
  written ++ left.reverse = pending.reverse ++ text ∨
    ∃ index, written ++ left.reverse = pending.reverse ++ Fragment.token index

/-- A result of the pass over arrays is made of what is written of a piece and of what comes
of the text behind the piece, with the rest of the piece pending. -/
def Advances (answer : σ → Environment → σ × Text) (before pending text after : Text)
    (cursor : Cursor) (result : Text) : Prop :=
  ∃ reached written left, Accounts pending text written left ∧
    result = written ++
      (editArraysFrom answer reached cursor (before ++ text).reverse left 0 false after).2

/-- The pass over arrays keeps a formula, or puts a token for the formula as a whole. Of the
formula, `front` has been gone over. -/
theorem editArraysFrom_formula (tokenizes : Kind.Tokenizes answer id) {kind : Kind}
    (listed : kind ∈ kinds) {front inner after : Text} (takes : kind.Takes (front ++ inner))
    (complete : Everywhere (fun suffix => arrays.opening <+: suffix → arrays.rest? suffix ≠ none)
      (escapesAfter false front) inner)
    (within : Within (escapesAfter false front) inner after)
    (precedes : Precedes before (front ++ inner ++ after))
    (follows : cursor.escaped = escapesAfter false front) (state : σ) :
    Advances answer before pending (front ++ inner) after (cursor.advanceOver inner)
      (editArraysFrom answer state cursor (front.reverse ++ before.reverse)
        (front.reverse ++ pending) 0 false (inner ++ after)).2 := by
  induction length : inner.length using Nat.strong_induction_on generalizing front inner cursor with
  | _ _ inductionHypothesis =>
    subst length
    -- Behind a piece that is pending, the formula is gone over in the same way.
    have goesOn {piece others : Text} (nonempty : piece ≠ []) (split : inner = piece ++ others) :
        Advances answer before pending (front ++ inner) after (cursor.advanceOver inner)
          (editArraysFrom answer state (cursor.advanceOver piece)
            (piece.reverse ++ (front.reverse ++ before.reverse))
            (piece.reverse ++ (front.reverse ++ pending)) 0 false (others ++ after)).2 := by
      subst split
      have whole : front ++ (piece ++ others) = front ++ piece ++ others :=
        (List.append_assoc front piece others).symm
      have shorter : others.length < (piece ++ others).length := by
        have filled := List.length_pos_iff.mpr nonempty
        rw [List.length_append]
        omega
      have escapes : (cursor.advanceOver piece).escaped = escapesAfter false (front ++ piece) := by
        rw [Cursor.advanceOver_escaped_eq, follows, escapesAfter_append]
      rw [Within, everywhere_append, ← escapesAfter_append] at within
      rw [everywhere_append, ← escapesAfter_append] at complete
      rw [whole] at takes precedes ⊢
      have advances :=
        inductionHypothesis others.length shorter takes complete.2 within.2 precedes escapes rfl
      rw [List.reverse_append, List.append_assoc piece.reverse, List.append_assoc piece.reverse]
        at advances
      rwa [Cursor.advanceOver_append]
    cases inner with
    | nil => exact ⟨state, [], front.reverse ++ pending, .inl (by simp), by simp; rfl⟩
    | cons c rest =>
      by_cases starts : cursor.escaped = false ∧ arrays.opening <+: c :: rest
      · obtain ⟨free, opened⟩ := starts
        obtain ⟨behind, read⟩ := Option.ne_none_iff_exists'.mp
          (complete.1 (follows.symm.trans free) opened)
        obtain ⟨array, nonempty, whole⟩ := exists_array read
        rw [whole] at takes read precedes ⊢
        have encloses : Encloses kind before front array behind after :=
          ⟨listed, takes, follows.symm.trans free, read, precedes⟩
        have later : arrays.rest? (array ++ behind ++ after) = some (behind ++ after) :=
          Kind.rest?_append (by decide) read after
        rcases encloses.arrayPlace?_eq pending with place | place
        · rw [List.append_assoc] at later
          rw [List.append_assoc, editArraysFrom_inside free nonempty later place, ← whole]
          exact goesOn nonempty whole
        · obtain ⟨reached, index, same⟩ := editArraysFrom_placed tokenizes free
            (List.append_ne_nil_of_left_ne_nil nonempty behind) later place state
          refine ⟨reached, pending.reverse ++ Fragment.token index, [], .inr ⟨index, by simp⟩, ?_⟩
          rw [same]
          simp
      · have unread : cursor.escaped = true ∨ arrays.rest? (c :: (rest ++ after)) = none := by
          cases escaped : cursor.escaped with
          | true => exact .inl rfl
          | false =>
            refine .inr (Kind.rest?_eq_none fun start => starts ⟨escaped, ?_⟩)
            exact within.1 (follows.symm.trans escaped) _ (by decide) start
        have split : c :: rest = [c] ++ rest := rfl
        rw [List.cons_append, editArraysFrom_pending unread]
        exact goesOn (List.cons_ne_nil c []) split

/-- The pass over arrays keeps prose, stores an array, and keeps or stores a formula. -/
theorem editArraysFrom_piece (tokenizes : Kind.Tokenizes answer id)
    (free : cursor.escaped = false) {piece : Piece} (wellFormed : piece.WellFormed) {after : Text}
    (within : Within false piece.text after) (precedes : Precedes before (piece.text ++ after))
    (state : σ) :
    ∃ next reached written left, (Leaves piece next ∧ Pending kinds next) ∧
      written ++ left.reverse = pending.reverse ++ next.text ∧
      (editArraysFrom answer state cursor before.reverse pending 0 false
          (piece.text ++ after)).2 =
        written ++ (editArraysFrom answer reached (cursor.advanceOver piece.text)
          (before ++ piece.text).reverse left 0 false after).2 := by
  cases piece with
  | prose text =>
    have unread : Everywhere (fun suffix => arrays.rest? (suffix ++ after) = none)
        cursor.escaped text := by
      rw [free]
      exact Within.unread (by decide) within (IsProse.unopened List.mem_cons_self wellFormed)
    refine ⟨.prose text, state, [], text.reverse ++ pending, ⟨.kept _, wellFormed⟩, ?_, ?_⟩
    · simp [Piece.text]
    · rw [Piece.text, editArraysFrom_unread unread]
      simp
  | array text =>
    have nonempty : text ≠ [] := by
      rintro rfl
      cases wellFormed.1
    have read : arrays.rest? (text ++ after) = some after :=
      Kind.rest?_append (by decide) wellFormed.1 after
    have outside : isInside before.reverse.reverse = false := by
      rw [List.reverse_reverse, isInside, precedes.closed]
      rfl
    obtain ⟨reached, index, same⟩ := editArraysFrom_placed tokenizes free nonempty read
      (arrayPlace?_outside outside pending after) state
    refine ⟨.prose (Fragment.token index), reached, pending.reverse ++ Fragment.token index, [],
      ⟨.stored index (by simp), isProse_token index⟩, by simp [Piece.text], ?_⟩
    rw [Piece.text, same]
    simp
  | formula text =>
    obtain ⟨formula, -, complete⟩ := wellFormed
    obtain ⟨kind, listed, takes⟩ := formula.exists_kind
    have whole : kind.Takes ([] ++ text) := takes
    obtain ⟨reached, written, left, accounts, same⟩ :
        Advances answer before pending text after (cursor.advanceOver text)
          (editArraysFrom answer state cursor before.reverse pending 0 false (text ++ after)).2 :=
      editArraysFrom_formula tokenizes listed whole complete within precedes free state
    rcases accounts with kept | ⟨index, stored⟩
    · exact ⟨.formula text, reached, written, left, ⟨.kept _, formula⟩, kept, same⟩
    · exact ⟨.prose (Fragment.token index), reached, written, left,
        ⟨.stored index (by simp), isProse_token index⟩, stored, same⟩

/-- The pass over arrays goes over a document piece by piece. -/
theorem editArraysFrom_document (tokenizes : Kind.Tokenizes answer id)
    {document : List Piece} (wellFormed : ∀ piece ∈ document, piece.WellFormed)
    (parted : Parted document) (free : cursor.escaped = false)
    (precedes : Precedes before (source document)) (state : σ) :
    ∃ written, (List.Forall₂ Leaves document written ∧ ∀ piece ∈ written, Pending kinds piece) ∧
      (editArraysFrom answer state cursor before.reverse pending 0 false (source document)).2 =
        pending.reverse ++ source written := by
  induction document generalizing cursor before pending state with
  | nil => exact ⟨[], ⟨.nil, nofun⟩, by simp [source, editArraysFrom]⟩
  | cons piece others inductionHypothesis =>
    rw [List.forall_mem_cons] at wellFormed
    obtain ⟨⟨ends, within⟩, apart⟩ := parted
    obtain ⟨next, reached, done, left, ⟨leaves, nextPending⟩, accounts, step⟩ :=
      editArraysFrom_piece tokenizes free wellFormed.1 within precedes state
    have goesOn : (cursor.advanceOver piece.text).escaped = false := by
      rw [Cursor.advanceOver_escaped_eq, free, ends]
    obtain ⟨written, ⟨othersLeave, othersPending⟩, same⟩ := inductionHypothesis wellFormed.2 apart
      goesOn (precedes.append ends wellFormed.1.closed within) reached
    refine ⟨next :: written, ⟨.cons leaves othersLeave, ?_⟩, ?_⟩
    · exact List.forall_mem_cons.mpr ⟨nextPending, othersPending⟩
    · rw [source_cons, step, same, ← List.append_assoc, accounts, source_cons, List.append_assoc]

end Steps

/-! ## Documents -/

/-- What stands for a piece of a document once all arrays and formulas are stored. -/
inductive StoredAs : Piece → Text → Prop where
  | prose (text : Text) : StoredAs (.prose text) text
  | array (text : Text) (index : Nat) : StoredAs (.array text) (Fragment.token index)
  | formula (text : Text) (index : Nat) : StoredAs (.formula text) (Fragment.token index)

/-- Storing the arrays of a document leaves prose and formulas. -/
theorem protectArrays_document {document : List Piece} (wellFormed : WellFormed document)
    (preview : Bool) (colors : ColorTable) (store : FragmentStore) :
    ∃ written, (List.Forall₂ Leaves document written ∧ ∀ piece ∈ written, Pending kinds piece) ∧
      (protectArrays preview colors store (source document)).2 = source written := by
  have tokenizes : Kind.Tokenizes (fun (store : FragmentStore) environment =>
      store.push (arrayFragment preview colors environment)) id :=
    fun store environment =>
      ⟨(store.push (arrayFragment preview colors environment)).1, store.size, rfl⟩
  have free : Cursor.start.escaped = false := rfl
  have precedes : Precedes [] (source document) := ⟨rfl, rfl, trivial⟩
  exact editArraysFrom_document tokenizes wellFormed.pieces wellFormed.parted free precedes store

/-- Where no array is read at any position, none is found. -/
theorem findEnvironmentFrom_eq_none {cursor : Cursor} {text : Text}
    (unread : Everywhere (fun suffix => arrays.rest? suffix = none) cursor.escaped text) :
    findEnvironmentFrom "array".toList 1 1 cursor 0 text = none := by
  induction text generalizing cursor with
  | nil => rfl
  | cons c rest inductionHypothesis =>
    obtain ⟨here, later⟩ := unread
    have silent : readEnvironment "array".toList 1 1 cursor (c :: rest) = none :=
      Kind.readEnvironment_of_unread
        ((Bool.eq_false_or_eq_true cursor.escaped).imp_right fun free => here free)
    have goesOn : Everywhere (fun suffix => arrays.rest? suffix = none)
        (cursor.advance c).escaped rest := later
    rw [findEnvironmentFrom_unread (by decide) silent]
    exact inductionHypothesis goesOn

/-- Prose holds no array, and none is joined where pieces of prose meet. -/
theorem unread_source {document : List Piece} (prose : ∀ piece ∈ document, Pending [] piece)
    (parted : Parted document) :
    Everywhere (fun suffix => arrays.rest? suffix = none) false (source document) := by
  induction document with
  | nil => trivial
  | cons piece others inductionHypothesis =>
    rw [List.forall_mem_cons] at prose
    obtain ⟨⟨ends, within⟩, apart⟩ := parted
    rw [source_cons, everywhere_append, ends]
    refine ⟨?_, inductionHypothesis prose.2 apart⟩
    cases piece with
    | prose text =>
      exact within.unread (by decide) (IsProse.unopened List.mem_cons_self prose.1)
    | array | formula => exact prose.1.elim

/-- A piece of which only prose is left is protected. -/
theorem StoredAs.of_leaves {piece next : Piece} (leaves : Leaves piece next)
    (prose : Pending [] next) : StoredAs piece next.text := by
  cases leaves with
  | kept =>
    cases piece with
    | prose text => exact .prose text
    | array | formula => exact prose.elim
  | stored index held =>
    cases piece with
    | prose text => exact absurd rfl (held text)
    | array text => exact .array text index
    | formula text => exact .formula text index

/-- A document of which only prose is left is protected piece by piece. -/
theorem forall₂_storedAs {document written : List Piece}
    (leaves : List.Forall₂ Leaves document written) (prose : ∀ piece ∈ written, Pending [] piece) :
    List.Forall₂ StoredAs document (written.map Piece.text) := by
  induction leaves with
  | nil => exact .nil
  | cons here _ inductionHypothesis =>
    rw [List.forall_mem_cons] at prose
    exact .cons (.of_leaves here prose.1) (inductionHypothesis prose.2)

/-- In a document whose formulas and arrays close what they open, the passes over arrays and
formulas put a token for every array and every formula that is not inside a larger one, keep
the prose between them, and leave no array to be found. -/
theorem protect_protectArrays {document : List Piece} (wellFormed : WellFormed document)
    (preview : Bool) (colors : ColorTable) (labels : LabelRegistry) (store : FragmentStore) :
    let stored := protectArrays preview colors store (source document)
    let result := (Math.protect colors labels preview stored.1 stored.2).2
    (∃ texts, List.Forall₂ StoredAs document texts ∧ result = texts.flatten) ∧
      findEnvironmentFrom "array".toList 1 1 .start 0 result = none := by
  obtain ⟨middle, ⟨leaves, pending⟩, arraysStored⟩ :=
    protectArrays_document wellFormed preview colors store
  have apart := wellFormed.parted.leaves leaves
  obtain ⟨written, ⟨later, prose⟩, formulasStored⟩ := protect_document pending apart colors labels
    preview (protectArrays preview colors store (source document)).1
  simp only [arraysStored, formulasStored]
  refine ⟨⟨written.map Piece.text, ?_, List.flatMap_def⟩, ?_⟩
  · exact forall₂_storedAs (leaves_trans leaves later) prose
  · exact findEnvironmentFrom_eq_none (unread_source prose (apart.leaves later))

/-- An array by itself, one that fills a formula on display, and one in a larger formula, with
prose and inline math around them. -/
def arrayDocument : List Piece :=
  [.prose "5\\$: ".toList,
    .array "\\begin\x7barray\x7d\x7bc\x7dx\\end\x7barray\x7d".toList, .prose " or ".toList,
    .formula "\\[ \\begin\x7barray\x7d\x7bc\x7dy\\end\x7barray\x7d \\]".toList,
    .formula ("\\begin\x7bmath\x7d2".toList ++
      ("\\begin\x7barray\x7d\x7bc\x7dz\\end\x7barray\x7d".toList ++
        "\\end\x7bmath\x7d".toList)),
    .formula "$n\\$$".toList]

theorem protect_protectArrays_arrayDocument :
    WellFormed arrayDocument ∧
      let stored := protectArrays false .empty .empty (source arrayDocument)
      let result := (Math.protect .empty .empty false stored.1 stored.2).2
      (∃ texts, List.Forall₂ StoredAs arrayDocument texts ∧ result = texts.flatten) ∧
        findEnvironmentFrom "array".toList 1 1 .start 0 result = none := by
  have wellFormed : WellFormed arrayDocument := by decide +kernel
  exact ⟨wellFormed, protect_protectArrays wellFormed false .empty .empty .empty⟩

/-- A dollar without a partner, and an array in a later paragraph. -/
def strayDollar : Text :=
  "a $5\n\n\\begin\x7barray\x7d\x7bc\x7dx\\end\x7barray\x7d".toList

/-- To the scan the dollar opens a formula that never ends, so the array is left to the passes
over formulas, and for those the paragraph ends before any formula: the array is still found. -/
theorem protect_protectArrays_strayDollar :
    let stored := protectArrays false .empty .empty strayDollar
    let result := (Math.protect .empty .empty false stored.1 stored.2).2
    result = strayDollar ∧ findEnvironmentFrom "array".toList 1 1 .start 0 result ≠ none := by
  decide

end LatexMarkdown.Table
