import LatexMarkdown.Proofs.AbsentPasses

/-!
# Structure that a text does not have

The passes for tables, lists, floats and regions act only where one of their
commands is spelled. A text that spells none of them keeps all it has.
-/

namespace LatexMarkdown

open Scan

variable {text : Text}

namespace Scan

/-- Without the start of all opening markers a text has none of them. -/
theorem not_infix_beginMarker (unopened : ¬ "\\begin".toList <:+: text) (name : Text) :
    ¬ beginMarker name <:+: text := by
  have starts : "\\begin".toList <+: beginMarker name :=
    ⟨'{' :: name ++ ['}'], rfl⟩
  exact fun occurs => unopened (starts.isInfix.trans occurs)

end Scan

/-! ## Tables -/

/-- A text without the opening markers of tables has none. -/
theorem Table.protect_of_absent
    (absent : ∀ family ∈ families, ¬ beginMarker family.name.toList <:+: text)
    (context : TableContext) (sink : TableSink) : protect context sink text = (sink, text) :=
  foldl_fixed_of_mem families fun family listed =>
    editEnvironment_of_absent (absent family listed) ..

/-- A text without the opening marker of arrays has none. -/
theorem Table.protectArrays_of_absent (absent : ¬ beginMarker "array".toList <:+: text)
    (preview : Bool) (colors : ColorTable) (store : FragmentStore) :
    protectArrays preview colors store text = (store, text) := by
  have pending (cursor : Cursor) (before pending : Text) (answered : Bool) (suffix : Text)
      (within : suffix <:+ text) :
      editArraysFrom (fun store environment =>
          FragmentStore.push store (arrayFragment preview colors environment))
        store cursor before pending 0 answered suffix = (store, pending.reverse ++ suffix) := by
    induction suffix generalizing cursor before pending answered with
    | nil => simp [editArraysFrom]
    | cons c rest inductionHypothesis =>
      have unread : readEnvironment "array".toList 1 1 cursor (c :: rest) = none :=
        readEnvironment_unopened cursor fun start => absent (start.isInfix.trans within.isInfix)
      have later : rest <:+ text := (List.suffix_cons c rest).trans within
      rw [editArraysFrom, unread]
      simp [inductionHypothesis _ _ _ _ later]
  exact pending .start [] [] false text (List.suffix_refl text)

/-! ## Items, lines and lists -/

/-- A text without bibliography items keeps all it has. -/
theorem Block.convertItems_of_absent (item : ¬ '\\' :: "bibitem".toList <:+: text)
    (block : ¬ '\\' :: "newblock".toList <:+: text) (citations : CitationRegistry) :
    convertItems citations text = text := by
  simp only [convertItems, replaceCommand_of_absent item, replaceControlWord_of_absent block]

/-- A text without environments has no verse and no tabbed text. -/
theorem Block.convertLines_of_absent (unopened : ¬ "\\begin".toList <:+: text) :
    convertLines text = text := by
  simp only [convertLines, replaceEnvironment_of_absent (not_infix_beginMarker unopened _)]

/-- A text that starts with no marker of a list is read as none. -/
theorem Block.readListToken_eq_none
    (unopened : ∀ kind : ListKind, ¬ beginMarker kind.name <+: text)
    (unclosed : ∀ kind : ListKind, ¬ endMarker kind.name <+: text)
    (item : ¬ "\\item".toList <+: text) : readListToken text = none := by
  rw [← Text.dropFront?_eq_none_iff] at item
  have opening (kind : ListKind) := Text.dropFront?_eq_none_iff.mpr (unopened kind)
  have closing (kind : ListKind) := Text.dropFront?_eq_none_iff.mpr (unclosed kind)
  simp only [readListToken, opening, closing, item, Option.map_none]
  rfl

/-- A text without the markers of lists has none. -/
theorem Block.convertLists_of_absent (unopened : ¬ "\\begin".toList <:+: text)
    (unclosed : ¬ "\\end".toList <:+: text) (item : ¬ "\\item".toList <:+: text) :
    convertLists text = text := by
  have unread {suffix : Text} (within : suffix <:+ text) : readListToken suffix = none := by
    have absent {pattern : Text} (lacks : ¬ pattern <:+: text) : ¬ pattern <+: suffix :=
      fun start => lacks (start.isInfix.trans within.isInfix)
    have closing (name : Text) : ¬ endMarker name <:+: text := by
      have starts : "\\end".toList <+: endMarker name := ⟨'{' :: name ++ ['}'], rfl⟩
      exact fun occurs => unclosed (starts.isInfix.trans occurs)
    exact readListToken_eq_none (fun _ => absent (not_infix_beginMarker unopened _))
      (fun _ => absent (closing _)) (absent item)
  have pieces (cursor : Cursor) (suffix : Text) (within : suffix <:+ text) :
      listPiecesFrom cursor .free suffix = ⟨suffix, []⟩ := by
    induction suffix generalizing cursor with
    | nil => rfl
    | cons c rest inductionHypothesis =>
      have later : rest <:+ text := (List.suffix_cons c rest).trans within
      rw [listPiecesFrom, unread within]
      · simp only [inductionHypothesis _ later]
        rfl
      · simp
      · simp
  rw [convertLists, pieces _ text (List.suffix_refl text)]
  simp [ListState.write, ListState.empty]

/-! ## Floats and regions -/

/-- A text without environments has no floats. -/
theorem Block.convertFloats_of_absent (unopened : ¬ "\\begin".toList <:+: text)
    (centering : ¬ '\\' :: "centering".toList <:+: text) : convertFloats text = text := by
  have dissolved : floats.foldl (fun body family =>
      replaceEnvironment family.name.toList family.maxOptions family.required
        (fun environment => some
          (Html.paragraph (Text.trim (convertFloatsAt text.length environment.body)))) body)
      text = text :=
    foldl_fixed_of_mem floats fun _ _ =>
      replaceEnvironment_of_absent (not_infix_beginMarker unopened _) ..
  rw [convertFloats, convertFloatsAt, dissolved]
  exact replaceControlWord_of_absent centering _

/-- A text without captions keeps all it has. -/
theorem Inline.convertCaptions_of_absent (absent : ¬ '\\' :: "caption".toList <:+: text) :
    convertCaptions text = text := by
  have longer : ¬ '\\' :: "captionof".toList <:+: text := by
    have starts : '\\' :: "caption".toList <+: '\\' :: "captionof".toList := by decide
    exact fun occurs => absent (starts.isInfix.trans occurs)
  simp only [convertCaptions, replaceCommand_of_absent absent, replaceCommand_of_absent longer]

/-- A text without environments has no boxed and no aligned regions. -/
theorem Block.convertRegions_of_absent (unopened : ¬ "\\begin".toList <:+: text) :
    convertRegions text = text := by
  rw [convertRegions, convertRegionsAt,
    replaceEnvironment_of_absent (not_infix_beginMarker unopened _)]
  exact foldl_fixed_of_mem alignedRegions fun _ _ =>
    replaceEnvironment_of_absent (not_infix_beginMarker unopened _) ..

end LatexMarkdown
