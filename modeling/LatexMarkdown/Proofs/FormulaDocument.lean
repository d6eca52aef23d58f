import LatexMarkdown.Proofs.FormulaScan

/-!
# Documents with formulas and arrays

A document is prose with arrays and formulas in it, such that no marker reaches over the
end of one of them. The passes over formulas go through it kind by kind, and each of them
puts a token for the formulas of its kind and leaves everything else as it is.
-/

namespace LatexMarkdown.Math

open Scan

/-! ## Documents -/

/-- A piece of a document. -/
inductive Piece where
  | prose (text : Text)
  | array (text : Text)
  | formula (text : Text)
  deriving DecidableEq, Repr

/-- What a document spells for a piece. -/
def Piece.text : Piece → Text
  | prose text | array text | formula text => text

/-- The text of a document. -/
def source (document : List Piece) : Text :=
  document.flatMap Piece.text

@[simp] theorem source_cons (piece : Piece) (others : List Piece) :
    source (piece :: others) = piece.text ++ source others :=
  rfl

/-- Arrays, as an environment with an optional and a required argument. -/
def arrays : Kind :=
  .environment "array".toList 1 1

/-- A text in which neither a formula nor an array opens. -/
def IsProse (text : Text) : Prop :=
  Everywhere (fun suffix => ∀ marker ∈ arrays.opening :: openings, ¬ marker <+: suffix) false text

instance (text : Text) : Decidable (IsProse text) :=
  decidableEverywhere _ false text

/-- A text that the first kind to open in it takes as a whole. -/
def IsFormula : List Kind → Text → Prop
  | [], _ => False
  | kind :: later, text =>
    kind.Takes text ∨
      Everywhere (fun suffix => ¬ kind.opening <+: suffix) false text ∧ IsFormula later text

instance decidableIsFormula : (remaining : List Kind) → (text : Text) →
    Decidable (IsFormula remaining text)
  | [], _ => isFalse id
  | _ :: later, text =>
    have := decidableIsFormula later text
    inferInstanceAs (Decidable (_ ∨ _ ∧ _))

/-- A piece that is what it is called. An array and a formula close whatever they open, and
an array that a formula opens ends in it. -/
def Piece.WellFormed : Piece → Prop
  | prose text => IsProse text
  | array text => arrays.rest? text = some [] ∧ openSpansFrom .none false text = .none
  | formula text =>
    IsFormula kinds text ∧ openSpansFrom .none false text = .none ∧
      Everywhere (fun suffix => arrays.opening <+: suffix → arrays.rest? suffix ≠ none) false text

instance : DecidablePred Piece.WellFormed
  | .prose text => inferInstanceAs (Decidable (IsProse text))
  | .array _ => inferInstanceAs (Decidable (_ ∧ _))
  | .formula _ => inferInstanceAs (Decidable (_ ∧ _ ∧ _))

/-- No piece ends in the middle of an escape or of a marker. -/
def Parted : List Piece → Prop
  | [] => True
  | piece :: others =>
    (escapesAfter false piece.text = false ∧ Within false piece.text (source others)) ∧
      Parted others

instance decidableParted : (document : List Piece) → Decidable (Parted document)
  | [] => isTrue trivial
  | _ :: others =>
    have := decidableParted others
    inferInstanceAs (Decidable ((_ ∧ _) ∧ _))

/-- A document of pieces that are what they are called and do not run into each other. -/
structure WellFormed (document : List Piece) : Prop where
  pieces : ∀ piece ∈ document, piece.WellFormed
  parted : Parted document

instance (document : List Piece) : Decidable (WellFormed document) :=
  decidable_of_iff ((∀ piece ∈ document, piece.WellFormed) ∧ Parted document)
    ⟨fun ⟨pieces, parted⟩ => ⟨pieces, parted⟩, fun document => ⟨document.pieces, document.parted⟩⟩

/-! ## Where nothing opens -/

/-- A kind whose opening is a marker or a single dollar. -/
def Kind.IsMarked (kind : Kind) : Prop :=
  kind.opening ∈ markers ∨ kind.opening = ['$']

instance : DecidablePred Kind.IsMarked := fun kind =>
  inferInstanceAs (Decidable (kind.opening ∈ markers ∨ kind.opening = ['$']))

theorem isMarked_of_mem {kind : Kind} (listed : kind ∈ kinds) : kind.IsMarked := by
  have all : ∀ kind ∈ kinds, kind.IsMarked := by decide
  exact all kind listed

theorem opening_ne_nil {kind : Kind} (listed : kind ∈ kinds) : kind.opening ≠ [] := by
  have all : ∀ kind ∈ kinds, kind.opening ≠ [] := by decide
  exact all kind listed

/-- Nothing is read from a text in which a kind does not open, whatever follows. -/
theorem Within.unread {kind : Kind} (marked : kind.IsMarked) {text after : Text}
    (within : Within false text after)
    (unopened : Everywhere (fun suffix => ¬ kind.opening <+: suffix) false text) :
    Everywhere (fun suffix => kind.rest? (suffix ++ after) = none) false text := by
  refine (within.and unopened).imp fun suffix _ nonempty ⟨inside, absent⟩ =>
    Kind.rest?_eq_none fun start => ?_
  rcases marked with listed | dollar
  · exact absent (inside _ listed start)
  · obtain ⟨c, rest, rfl⟩ := List.exists_cons_of_ne_nil nonempty
    rw [dollar] at start absent
    obtain ⟨same, -⟩ := List.cons_prefix_cons.mp start
    exact absent (List.cons_prefix_cons.mpr ⟨same, List.nil_prefix⟩)

/-- Where prose opens nothing, no kind opens. -/
theorem IsProse.unopened {kind : Kind} (listed : kind ∈ arrays :: kinds) {text : Text}
    (prose : IsProse text) : Everywhere (fun suffix => ¬ kind.opening <+: suffix) false text := by
  have all : ∀ kind ∈ arrays :: kinds, ∃ marker ∈ arrays.opening :: openings,
      marker <+: kind.opening := by decide
  obtain ⟨marker, opens, starts⟩ := all kind listed
  exact prose.imp fun suffix _ _ absent start => absent marker opens (starts.trans start)

/-- A formula is taken as a whole by one of its kinds. -/
theorem IsFormula.exists_kind {remaining : List Kind} {text : Text}
    (formula : IsFormula remaining text) : ∃ kind ∈ remaining, kind.Takes text := by
  induction remaining with
  | nil => exact formula.elim
  | cons kind later inductionHypothesis =>
    rcases formula with takes | ⟨-, others⟩
    · exact ⟨kind, List.mem_cons_self, takes⟩
    · obtain ⟨found, listed, takes⟩ := inductionHypothesis others
      exact ⟨found, List.mem_cons_of_mem kind listed, takes⟩

/-- Every piece closes the formulas that it opens. -/
theorem Piece.WellFormed.closed {piece : Piece} (wellFormed : piece.WellFormed) :
    openSpansFrom .none false piece.text = .none := by
  cases piece with
  | prose text =>
    exact openSpansFrom_of_unopened (wellFormed.imp fun _ _ _ absent marker listed =>
      absent marker (List.mem_cons_of_mem _ listed))
  | array text => exact wellFormed.2
  | formula text => exact wellFormed.2.1

/-! ## What a pass leaves -/

/-- What a pass leaves of a piece: the piece, or a token for what is no prose. -/
inductive Leaves : Piece → Piece → Prop where
  | kept (piece : Piece) : Leaves piece piece
  | stored {piece : Piece} (index : Nat) (held : ∀ text, piece ≠ .prose text) :
    Leaves piece (.prose (Fragment.token index))

theorem Leaves.trans {first second third : Piece} (before : Leaves first second)
    (after : Leaves second third) : Leaves first third := by
  cases before with
  | kept => exact after
  | stored index held =>
    cases after with
    | kept => exact .stored index held
    | stored _ proseHeld => exact absurd rfl (proseHeld _)

theorem leaves_trans {first second third : List Piece} (before : List.Forall₂ Leaves first second)
    (after : List.Forall₂ Leaves second third) : List.Forall₂ Leaves first third := by
  induction before generalizing third with
  | nil => exact after
  | cons here _ inductionHypothesis =>
    cases after with
    | cons next others => exact .cons (here.trans next) (inductionHypothesis others)

/-- A marker holds no at sign, and it starts with a sign that occurs in no token. -/
theorem markers_foreign {marker : Text} (listed : marker ∈ ['$'] :: markers) :
    '@' ∉ marker ∧ ∃ c ∈ marker.head?, ∀ index, c ∉ Fragment.token index := by
  have all : ∀ marker ∈ ['$'] :: markers, '@' ∉ marker ∧
      marker.head?.any (fun c => !c.isDigit && decide (c ∉ Fragment.tokenOpening)) = true := by
    decide
  obtain ⟨plain, starts⟩ := all marker listed
  obtain ⟨c, head, foreign⟩ := (Option.any_eq_true _ _).mp starts
  rw [Bool.and_eq_true, Bool.not_eq_true', decide_eq_true_eq] at foreign
  exact ⟨plain, c, head, fun index => Fragment.not_mem_token foreign index⟩

/-- No marker starts in a token. -/
theorem not_prefix_token {marker : Text} (listed : marker ∈ ['$'] :: markers) {index : Nat}
    {suffix after : Text} (within : suffix <:+ Fragment.token index) (nonempty : suffix ≠ []) :
    ¬ marker <+: suffix ++ after := by
  intro start
  obtain ⟨-, c, head, foreign⟩ := markers_foreign listed
  obtain ⟨rest, rfl⟩ := List.head?_eq_some_iff.mp head
  obtain ⟨d, others, rfl⟩ := List.exists_cons_of_ne_nil nonempty
  obtain ⟨rfl, -⟩ := List.cons_prefix_cons.mp start
  exact foreign index (within.subset List.mem_cons_self)

/-- A token is prose. -/
theorem isProse_token (index : Nat) : IsProse (Fragment.token index) := by
  have all : ∀ marker ∈ arrays.opening :: openings, marker ∈ ['$'] :: markers := by decide
  refine everywhere_of_suffixes fun suffix within nonempty marker listed start => ?_
  rw [← List.append_nil suffix] at start
  exact not_prefix_token (all marker listed) within nonempty start

/-- A front of two texts ends in the first or goes on into the second. -/
theorem prefix_append_cases {front first second : Text} (start : front <+: first ++ second) :
    front <+: first ∨ ∃ tail, front = first ++ tail ∧ tail <+: second := by
  rcases List.prefix_or_prefix_of_prefix start (List.prefix_append first second) with short | long
  · exact .inl short
  · obtain ⟨tail, rfl⟩ := long
    exact .inr ⟨tail, rfl, (List.prefix_append_right_inj first).mp start⟩

/-- What can be seen of a document without at signs is seen before a pass as well. -/
theorem prefix_source_of_leaves {document written : List Piece}
    (leaves : List.Forall₂ Leaves document written) {front : Text} (plain : '@' ∉ front)
    (start : front <+: source written) : front <+: source document := by
  induction leaves generalizing front with
  | nil => exact start
  | @cons piece next others rest here _ inductionHypothesis =>
    rw [source_cons] at start ⊢
    cases here with
    | kept =>
      rcases prefix_append_cases start with inside | ⟨tail, rfl, behind⟩
      · exact inside.trans (List.prefix_append _ _)
      · rw [List.prefix_append_right_inj]
        exact inductionHypothesis (fun member => plain (List.mem_append_right _ member)) behind
    | stored index =>
      cases front with
      | nil => exact List.nil_prefix
      | cons c tail =>
        have token : (Piece.prose (Fragment.token index)).text ++ source rest =
            '@' :: ((Fragment.token index).tail ++ source rest) := rfl
        rw [token] at start
        obtain ⟨rfl, -⟩ := List.cons_prefix_cons.mp start
        exact absurd List.mem_cons_self plain

/-- Tokens keep the pieces of a document apart. -/
theorem Parted.leaves {document written : List Piece} (parted : Parted document)
    (leaves : List.Forall₂ Leaves document written) : Parted written := by
  induction leaves with
  | nil => trivial
  | @cons piece next others rest here later inductionHypothesis =>
    obtain ⟨⟨free, within⟩, apart⟩ := parted
    refine ⟨?_, inductionHypothesis apart⟩
    cases here with
    | kept =>
      refine ⟨free, within.imp fun suffix _ _ inside marker listed start => ?_⟩
      rcases prefix_append_cases start with short | ⟨tail, rfl, behind⟩
      · exact short
      · have plain := (markers_foreign (List.mem_cons_of_mem _ listed)).1
        rw [List.mem_append, not_or] at plain
        refine inside _ listed ?_
        rw [List.prefix_append_right_inj]
        exact prefix_source_of_leaves later plain.2 behind
    | stored index =>
      have ends : Fragment.token index =
          Fragment.tokenOpening ++ Text.ofNat index ++ ['@'] ++ ['@'] := by
        rw [Fragment.token, Fragment.tokenClosing_eq]
        simp
      constructor
      · rw [Piece.text, ends]
        exact escapesAfter_concat (by decide) false _
      · exact everywhere_of_suffixes fun suffix inside nonempty marker listed start =>
          absurd start (not_prefix_token (List.mem_cons_of_mem _ listed) inside nonempty)

/-! ## The passes over formulas -/

/-- A piece that is prose, or a formula of one of some kinds. -/
def Pending (remaining : List Kind) : Piece → Prop
  | .prose text => IsProse text
  | .array _ => False
  | .formula text => IsFormula remaining text

section Passes

variable {σ : Type} {rule : Rule σ} {kind : Kind} {later : List Kind} {cursor : Cursor}

/-- The pass over one kind keeps a piece in which the kind does not open. -/
theorem edit_kept (listed : kind ∈ kinds) (stores : rule.Stores kind.rest?)
    (free : cursor.escaped = false) {text after : Text} (within : Within false text after)
    (unopened : Everywhere (fun suffix => ¬ kind.opening <+: suffix) false text) (state : σ) :
    editFrom rule state cursor 0 (text ++ after) =
      ((editFrom rule state (cursor.advanceOver text) 0 after).1,
        text ++ (editFrom rule state (cursor.advanceOver text) 0 after).2) := by
  refine stores.edit_passed ?_ state
  rw [free]
  exact within.unread (isMarked_of_mem listed) unopened

/-- The pass over one kind keeps a piece or puts a token for it, and the piece is then no
longer one of that kind. -/
theorem edit_piece (listed : kind ∈ kinds) (stores : rule.Stores kind.rest?)
    (free : cursor.escaped = false) {piece : Piece} (pending : Pending (kind :: later) piece)
    {after : Text} (within : Within false piece.text after) (state : σ) :
    ∃ next reached, (Leaves piece next ∧ Pending later next) ∧
      editFrom rule state cursor 0 (piece.text ++ after) =
        ((editFrom rule reached (cursor.advanceOver piece.text) 0 after).1,
          next.text ++ (editFrom rule reached (cursor.advanceOver piece.text) 0 after).2) := by
  cases piece with
  | prose text =>
    refine ⟨.prose text, state, ⟨.kept _, pending⟩, edit_kept listed stores free within ?_ state⟩
    exact IsProse.unopened (List.mem_cons_of_mem _ listed) pending
  | array text => exact pending.elim
  | formula text =>
    rcases pending with takes | ⟨unopened, others⟩
    · have nonempty : text ≠ [] := by
        rintro rfl
        obtain ⟨body, empty⟩ := Kind.exists_body takes.read
        exact absurd (List.append_eq_nil_iff.mp empty.symm).1 (opening_ne_nil listed)
      have read : kind.rest? (text ++ after) = some after :=
        Kind.rest?_append (regular_of_mem listed) takes.read after
      obtain ⟨reached, index, edited⟩ := stores.edit_taken free nonempty read state
      exact ⟨.prose (Fragment.token index), reached, ⟨.stored index nofun, isProse_token index⟩,
        edited⟩
    · exact ⟨.formula text, state, ⟨.kept _, others⟩,
        edit_kept listed stores free within unopened state⟩

/-- The pass over one kind goes over a document piece by piece. -/
theorem edit_document (listed : kind ∈ kinds) (stores : rule.Stores kind.rest?)
    {document : List Piece} (pending : ∀ piece ∈ document, Pending (kind :: later) piece)
    (parted : Parted document) (free : cursor.escaped = false) (state : σ) :
    ∃ written, (List.Forall₂ Leaves document written ∧ ∀ piece ∈ written, Pending later piece) ∧
      (editFrom rule state cursor 0 (source document)).2 = source written := by
  induction document generalizing cursor state with
  | nil => exact ⟨[], ⟨.nil, nofun⟩, by rw [source, List.flatMap_nil, editFrom_nil]⟩
  | cons piece others inductionHypothesis =>
    rw [List.forall_mem_cons] at pending
    obtain ⟨⟨ends, within⟩, apart⟩ := parted
    obtain ⟨next, reached, ⟨leaves, nextPending⟩, edited⟩ :=
      edit_piece listed stores free pending.1 within state
    have goesOn : (cursor.advanceOver piece.text).escaped = false := by
      rw [Cursor.advanceOver_escaped_eq, free, ends]
    obtain ⟨written, ⟨othersLeave, othersPending⟩, same⟩ :=
      inductionHypothesis pending.2 apart goesOn reached
    refine ⟨next :: written, ⟨.cons leaves othersLeave, ?_⟩, ?_⟩
    · exact List.forall_mem_cons.mpr ⟨nextPending, othersPending⟩
    · rw [source_cons, edited, same, source_cons]

end Passes

/-- The passes over some kinds, one after another, put tokens for the formulas of these
kinds. -/
theorem runAll_document {remaining : List Kind} {stages : List FragmentStore.StoreStage}
    (stored : List.Forall₂ (fun (kind : Kind) (stage : FragmentStore.StoreStage) =>
      ∃ rule : Rule FragmentStore, rule.Stores kind.rest? ∧ stage.run = edit rule)
      remaining stages)
    (listed : remaining ⊆ kinds) {document : List Piece}
    (pending : ∀ piece ∈ document, Pending remaining piece) (parted : Parted document)
    (store : FragmentStore) :
    ∃ written, (List.Forall₂ Leaves document written ∧ ∀ piece ∈ written, Pending [] piece) ∧
      (Scan.Stage.runAll stages store (source document)).2 = source written := by
  induction stored generalizing document store with
  | nil => exact ⟨document, ⟨List.forall₂_same.mpr fun piece _ => .kept piece, pending⟩, rfl⟩
  | @cons kind stage later stages step _ inductionHypothesis =>
    obtain ⟨rule, stores, run⟩ := step
    rw [List.cons_subset] at listed
    have start : Cursor.start.escaped = false := rfl
    obtain ⟨middle, ⟨leaves, middlePending⟩, same⟩ :=
      edit_document listed.1 stores pending parted start store
    obtain ⟨written, ⟨laterLeave, writtenPending⟩, result⟩ :=
      inductionHypothesis listed.2 middlePending (parted.leaves leaves)
        (edit rule store (source document)).1
    refine ⟨written, ⟨leaves_trans leaves laterLeave, writtenPending⟩, ?_⟩
    rw [Scan.Stage.runAll, run, ← result]
    exact congrArg (fun text => (Scan.Stage.runAll stages _ text).2) same

/-- Storing the formulas of a document leaves nothing but prose. -/
theorem protect_document {document : List Piece} (pending : ∀ piece ∈ document, Pending kinds piece)
    (parted : Parted document) (colors : ColorTable) (labels : LabelRegistry) (preview : Bool)
    (store : FragmentStore) :
    ∃ written, (List.Forall₂ Leaves document written ∧ ∀ piece ∈ written, Pending [] piece) ∧
      (protect colors labels preview store (source document)).2 = source written := by
  rw [protect_eq]
  exact runAll_document (stages_kinds colors labels preview) (List.Subset.refl kinds) pending parted
    store

end LatexMarkdown.Math
