import LatexMarkdown.Fragment.Store
import LatexMarkdown.Math.Family

/-!
# Moving formulas into the store

Displays come first, then the environments, then inline formulas, so that no
delimiter inside a larger formula is taken for a formula of its own.
-/

namespace LatexMarkdown.Math

/-- Move all formulas of a document into the store. -/
def protect (colors : ColorTable) (labels : LabelRegistry) (preview : Bool)
    (store : FragmentStore) (text : Text) : FragmentStore × Text :=
  let display := fun body => some (renderDisplay preview none (clean colors body))
  let inline := fun body => renderInline colors body
  let (store, text) := store.protectDelimited brackets display text
  let (store, text) := families.foldl (fun (store, text) family =>
    FragmentStore.protectEnvironment store family.name.toList 0 family.required
      (fun environment => some (family.render colors labels preview environment.body)) text)
    (store, text)
  let (store, text) := store.protectDelimited doubleDollars display text
  let (store, text) :=
    store.protectDelimited parentheses (fun body => some (inline body)) text
  let (store, text) := store.protectEnvironment "math".toList 0 0
    (fun environment => some (inline environment.body)) text
  store.protectDollars inline text

end LatexMarkdown.Math
