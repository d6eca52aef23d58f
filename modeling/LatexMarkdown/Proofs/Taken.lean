import LatexMarkdown.Math.Protect
import LatexMarkdown.Proofs.RenderedTable
import LatexMarkdown.Proofs.Rendering
import LatexMarkdown.Proofs.Stage

/-!
# What fragments take over

Every pass that stores fragments is a list of stages, one for each kind of match
that it looks for. A stage keeps a store final exactly when the texts that its
fragments take over hold no token.
-/

namespace LatexMarkdown

open Fragment Scan

namespace FragmentStore

/-- No fragment holds a token. -/
def Final (store : FragmentStore) : Prop :=
  ∀ fragment ∈ store.fragments, TokenFree fragment

/-- A store stays final exactly when a final fragment is stored. -/
theorem final_push (store : FragmentStore) (fragment : Text) :
    (store.push fragment).1.Final ↔ store.Final ∧ TokenFree fragment := by
  simp only [Final, push, Array.mem_push, or_imp, forall_and, forall_eq]

/-- Store what a match is rendered to, and write its token in some way. -/
def storing {α ρ : Type} (render : α → Text) (write : α → Text → ρ) :
    FragmentStore → α → FragmentStore × ρ :=
  fun store found => ((store.push (render found)).1, write found (store.push (render found)).2)

/-- A stage of a pass that only stores fragments. -/
abbrev StoreStage :=
  Stage FragmentStore Final TokenFree

/-- The stage that stores what every match is rendered to. The rendering has the
tokens of the texts that it takes over. -/
def storeStage {α ρ : Type} (editor : Editor α ρ) (render : α → Text) (write : α → Text → ρ)
    (taken : α → List Text)
    (decides : ∀ found, TokenFree (render found) ↔ ∀ text ∈ taken found, TokenFree text) :
    StoreStage :=
  Stage.ofEditor editor (storing render write) (fun _ found => taken found) fun store found => by
    rw [storing, final_push, decides]

/-- A search that keeps a store beside its own state, of which it has none, is an
editing with the store as the state. -/
theorem edit_stored {α : Type} (editor : Editor α (Option Text)) (render : α → Text)
    (store : FragmentStore) (text : Text) :
    let searched := editor.edit (stored fun (_ : Unit) found => ((), some (render found)))
      ((), store) text
    (searched.1.2, searched.2) = editor.edit (storing render fun _ token => some token) store text := by
  let same (left : Unit × FragmentStore) (right : FragmentStore) : Prop := left.2 = right
  have agrees : Agrees same (stored fun (_ : Unit) found => ((), some (render found)))
      (storing render fun _ token => some token) := by
    rintro ⟨⟨⟩, store⟩ _ found rfl
    exact ⟨rfl, rfl⟩
  obtain ⟨reached, written⟩ := editor.agrees agrees ((), store) store text rfl
  exact Prod.ext reached written

/-- Moving environments into the store is editing them with the store as the
state. -/
theorem protectEnvironment_eq (store : FragmentStore) (name : Text) (maxOptions required : Nat)
    (render : Environment → Text) (text : Text) :
    store.protectEnvironment name maxOptions required (fun found => some (render found)) text =
      (Editor.environment name maxOptions required).edit
        (storing render fun _ token => some token) store text :=
  edit_stored (.environment name maxOptions required) render store text

/-- Moving delimited spans into the store is editing them with the store as the
state. -/
theorem protectDelimited_eq (store : FragmentStore) (delimiters : Delimiters)
    (render : Text → Text) (text : Text) :
    store.protectDelimited delimiters (fun found => some (render found)) text =
      (Editor.delimited delimiters).edit (storing render fun _ token => some token) store text :=
  edit_stored (.delimited delimiters) render store text

end FragmentStore

open FragmentStore (StoreStage storeStage)

namespace Code

/-- The stage of one kind of code block. -/
def blockStage (options : Options) (family : { family // family ∈ families }) : StoreStage :=
  storeStage
    (.environment family.1.name.toList family.1.maxOptions family.1.required)
    (fun found => renderBlock options (family.1.language found.arguments) found.body)
    (fun _ token => some token) (fun found => [shown options found.body]) fun found => by
      rw [List.forall_mem_singleton,
        tokenFree_renderBlock options (language_lower family.1 family.2 found.arguments)]

/-- The stage of one command for inline code. -/
def inlineStage (name : Text) (listing : Bool) : StoreStage :=
  storeStage (.inlineCode name listing) renderInline (fun _ token => token) (fun code => [code])
    fun code => by rw [List.forall_mem_singleton, tokenFree_renderInline]

/-- The stages that store code. -/
def stages (options : Options) : List StoreStage :=
  families.attach.map (blockStage options) ++
    [inlineStage "verb".toList false, inlineStage "lstinline".toList true]

/-- Storing code is running its stages. -/
theorem protect_eq (options : Options) (store : FragmentStore) (text : Text) :
    protect options store text = Scan.Stage.runAll (stages options) store text := by
  rw [protect, Scan.Stage.foldl_eq_runAll (blockStage options) (store, text), stages,
    Scan.Stage.runAll_append]
  · rfl
  · exact fun _ _ _ => FragmentStore.protectEnvironment_eq ..

end Code

namespace Link

/-- The stage of web addresses. -/
def addressStage : StoreStage :=
  storeStage (.command "url".toList ⟨true, 0, 1⟩)
    (fun found => renderLink (Text.trim (found.argument 0)) (Text.trim (found.argument 0)))
    (fun _ token => some token) (fun found => [found.argument 0]) fun found => by
      rw [List.forall_mem_singleton, tokenFree_renderLink, tokenFree_trim, and_self]

/-- The stage of the targets of links. -/
def targetStage : StoreStage :=
  storeStage (.command "href".toList ⟨true, 0, 2⟩) (fun found => Text.trim (found.argument 0))
    (fun found token => some (renderLink (Text.trim (found.argument 1)) token))
    (fun found => [found.argument 0]) fun found => by
      rw [List.forall_mem_singleton, tokenFree_trim]

/-- The stage of images. -/
def imageStage (preview : Bool) : StoreStage :=
  storeStage (.command "includegraphics".toList ⟨true, 1, 1⟩)
    (fun found => if preview then imagePreview
      else renderImage (Text.trim (found.argument 0)) (found.option? 0))
    (fun _ token => some token) (fun found => if preview then [] else [found.argument 0])
    fun found => by
      cases preview with
      | true =>
        have plain : TokenFree imagePreview := TokenFree.of_no_at (by decide)
        exact plain.iff_nothing
      | false =>
        simp only [Bool.false_eq_true, if_false]
        rw [List.forall_mem_singleton, tokenFree_renderImage, tokenFree_trim]

/-- The stages that store links and images. -/
def stages (preview : Bool) : List StoreStage :=
  [addressStage, targetStage, imageStage preview]

/-- Storing links and images is running their stages. -/
theorem protect_eq (preview : Bool) (store : FragmentStore) (text : Text) :
    protect preview store text = Scan.Stage.runAll (stages preview) store text :=
  rfl

end Link

namespace Math

/-- The stage of formulas on display between two delimiters. -/
def displayStage (colors : ColorTable) (preview : Bool) (delimiters : Scan.Delimiters) :
    StoreStage :=
  storeStage (.delimited delimiters)
    (fun body => renderDisplay preview none (clean colors body)) (fun _ token => some token)
    (fun body => [clean colors body]) fun body => by
      rw [List.forall_mem_singleton, tokenFree_renderDisplay]

/-- The stage of one kind of environment for formulas. -/
def familyStage (colors : ColorTable) (labels : LabelRegistry) (preview : Bool)
    (family : { family // family ∈ families }) : StoreStage :=
  storeStage (.environment family.1.name.toList 0 family.1.required)
    (fun found => family.1.render colors labels preview found.body) (fun _ token => some token)
    (fun found => family.1.taken colors preview found.body) fun found =>
      Family.tokenFree_render family.2 colors labels preview found.body

/-- The stage of inline formulas that are found in some way. -/
def inlineStage {α ρ : Type} (colors : ColorTable) (editor : Scan.Editor α ρ) (body : α → Text)
    (write : Text → ρ) : StoreStage :=
  storeStage editor (fun found => renderInline colors (body found)) (fun _ token => write token)
    (fun found => [clean colors (body found)]) fun found => by
      rw [List.forall_mem_singleton, tokenFree_renderInline]

/-- The stages that store formulas. -/
def stages (colors : ColorTable) (labels : LabelRegistry) (preview : Bool) : List StoreStage :=
  displayStage colors preview brackets ::
    (families.attach.map (familyStage colors labels preview) ++
      [displayStage colors preview doubleDollars,
        inlineStage colors (.delimited parentheses) id some,
        inlineStage colors (.environment "math".toList 0 0) Scan.Environment.body some,
        inlineStage colors .dollars id id])

/-- Storing formulas is running their stages. -/
theorem protect_eq (colors : ColorTable) (labels : LabelRegistry) (preview : Bool)
    (store : FragmentStore) (text : Text) :
    protect colors labels preview store text =
      Scan.Stage.runAll (stages colors labels preview) store text := by
  have displays (store : FragmentStore) (delimiters : Scan.Delimiters) (text : Text) :
      store.protectDelimited delimiters
        (fun body => some (renderDisplay preview none (clean colors body))) text =
      (displayStage colors preview delimiters).run store text :=
    FragmentStore.protectDelimited_eq ..
  have delimited (store : FragmentStore) (delimiters : Scan.Delimiters) (text : Text) :
      store.protectDelimited delimiters (fun body => some (renderInline colors body)) text =
      (inlineStage colors (.delimited delimiters) id some).run store text :=
    FragmentStore.protectDelimited_eq ..
  have named (store : FragmentStore) (name text : Text) :
      store.protectEnvironment name 0 0 (fun found => some (renderInline colors found.body)) text =
      (inlineStage colors (.environment name 0 0) Scan.Environment.body some).run store text :=
    FragmentStore.protectEnvironment_eq ..
  have dollars (store : FragmentStore) (text : Text) :
      store.protectDollars (renderInline colors) text =
      (inlineStage colors .dollars id id).run store text := rfl
  rw [stages, Scan.Stage.runAll, Scan.Stage.runAll_append, protect]
  simp only [displays]
  rw [Scan.Stage.foldl_eq_runAll (familyStage colors labels preview)]
  · simp only [delimited, named, dollars, Scan.Stage.runAll]
  · exact fun _ _ _ => FragmentStore.protectEnvironment_eq ..

end Math

namespace Table

/-- What the store of a table holds is final. -/
abbrev TableSink.Final (sink : TableSink) : Prop :=
  sink.store.Final

/-- A stage of the pass that stores tables. -/
abbrev TableStage :=
  Scan.Stage TableSink TableSink.Final TokenFree

/-- What a table takes over, once its references are resolved and earlier
fragments are back in it. A preview takes nothing over. -/
def takenBy (context : TableContext) (family : Family) (sink : TableSink)
    (found : Scan.Environment) : List Text :=
  if context.preview then []
  else
    taken context.colors (family.specification found)
      (sink.store.restore (Numbering.resolveReferences context.labels context.citations
        sink.warnings found.body).2)

/-- Storing a table keeps a store final exactly when the table takes no token
over. -/
theorem final_protectOne (context : TableContext) (family : Family) (sink : TableSink)
    (found : Scan.Environment) : (protectOne context family sink found).1.Final ↔
      sink.Final ∧ ∀ text ∈ takenBy context family sink found, TokenFree text := by
  cases preview : context.preview with
  | true =>
    have plain : TokenFree tablePreview := TokenFree.of_no_at (by decide)
    have stored : (protectOne context family sink found).1.store =
        (sink.store.push tablePreview).1 := by
      rw [protectOne, if_pos preview]
    rw [TableSink.Final, stored, FragmentStore.final_push, takenBy, if_pos preview]
    simp [plain]
  | false =>
    have full : ¬ context.preview = true := by rw [preview]; exact Bool.false_ne_true
    rw [TableSink.Final, protectOne, if_neg full, takenBy, if_neg full, ← tokenFree_render]
    exact FragmentStore.final_push ..

/-- The stage of one kind of table. -/
def familyStage (context : TableContext) (family : Family) : TableStage :=
  .ofEditor (.environment family.name.toList family.maxOptions family.required)
    (protectOne context family) (takenBy context family) (final_protectOne context family)

/-- The stages that store tables. -/
def stages (context : TableContext) : List TableStage :=
  families.map (familyStage context)

/-- Storing tables is running their stages. -/
theorem protect_eq (context : TableContext) (sink : TableSink) (text : Text) :
    protect context sink text = Scan.Stage.runAll (stages context) sink text := by
  rw [stages, Scan.Stage.runAll_map]
  rfl

/-- The stage of arrays that are formulas of their own. -/
def arrayStage (preview : Bool) (colors : ColorTable) : StoreStage :=
  storeStage .arrays (arrayFragment preview colors) (fun _ token => token)
    (fun found => if preview then []
      else [found.arguments.argument 0, writtenRows colors found.body]) fun found => by
      cases preview with
      | true =>
        have plain : TokenFree arrayPreview := TokenFree.of_no_at (by decide)
        exact plain.iff_nothing
      | false =>
        rw [arrayFragment]
        simp only [Bool.false_eq_true, if_false, tokenFree_renderArray, List.forall_mem_cons,
          List.not_mem_nil, false_implies, implies_true, and_true]

end Table

end LatexMarkdown
