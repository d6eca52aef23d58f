import LatexMarkdown.Fragment.Token
import LatexMarkdown.Scan.Delimited
import LatexMarkdown.Scan.Environment

/-!
# Stored fragments

Finished pieces of output are moved out of the document into a store, where no
later pass can change them. Restoring puts every fragment in the place of its
token, in one pass over the document.
-/

namespace LatexMarkdown

/-- The finished fragments; the index of a fragment is its place. -/
structure FragmentStore where
  fragments : Array Text
  deriving DecidableEq, Repr

namespace FragmentStore

/-- Nothing is stored. -/
def empty : FragmentStore :=
  ⟨#[]⟩

/-- The number of fragments. -/
def size (store : FragmentStore) : Nat :=
  store.fragments.size

/-- The fragment with an index. -/
def get? (store : FragmentStore) (index : Nat) : Option Text :=
  store.fragments[index]?

/-- Store a fragment; the token that stands for it is the second part. -/
def push (store : FragmentStore) (fragment : Text) : FragmentStore × Text :=
  (⟨store.fragments.push fragment⟩, Fragment.token store.size)

/-- Block fragments start on a line of their own. -/
def isBlock (fragment : Text) : Bool :=
  fragment.head? = some '\n'

/-- Whether an index, as spelled by a token, is that of a block fragment. -/
def isBlockIndex (store : FragmentStore) (index : Option Nat) : Bool :=
  match index.bind store.get? with
  | some fragment => isBlock fragment
  | none => false

/-- Whether some token in the text stands for a block fragment. -/
def containsBlock (store : FragmentStore) (text : Text) : Bool :=
  (Fragment.tokens text).any store.isBlockIndex

/-- Whether the text starts with the token of a block fragment. -/
def startsWithBlock (store : FragmentStore) (text : Text) : Bool :=
  match Fragment.readToken text with
  | some (digits, _) => store.isBlockIndex (Fragment.tokenIndex? digits)
  | none => false

/-- What a token with these digits stands for; nothing if there is no such
fragment. -/
def fragmentOf (store : FragmentStore) (digits : Text) : Text :=
  ((Fragment.tokenIndex? digits).bind store.get?).getD []

/-- Put the fragments in the place of their tokens. -/
def restore (store : FragmentStore) (text : Text) : Text :=
  Scan.editAhead (fun suffix =>
    (Fragment.readToken suffix).map fun (digits, rest) =>
      Scan.Edit.upTo suffix rest (store.fragmentOf digits)) text

/-- Store an answer to a match, and write its token in the place of the match. -/
def stored {σ α : Type} (answer : Scan.Answer σ α) : Scan.Answer (σ × FragmentStore) α :=
  fun (state, store) matched =>
    match answer state matched with
    | (state, some fragment) =>
      let (store, token) := store.push fragment
      ((state, store), some token)
    | (state, none) => ((state, store), none)

/-- Move every environment of a name that has an answer into the store. -/
def protectEnvironment (store : FragmentStore) (name : Text) (maxOptions required : Nat)
    (answer : Scan.Environment -> Option Text) (text : Text) : FragmentStore × Text :=
  let ((_, store), text) := Scan.editEnvironment name maxOptions required
    (stored fun (_ : Unit) environment => ((), answer environment)) ((), store) text
  (store, text)

/-- Move every span between two delimiters that has an answer into the store. -/
def protectBetween (store : FragmentStore) (opening closing : Text)
    (answer : Text -> Option Text) (text : Text) : Except Fault (FragmentStore × Text) :=
  (Scan.editBetween opening closing (stored fun (_ : Unit) body => ((), answer body))
    ((), store) text).map fun ((_, store), text) => (store, text)

/-- Move every span between two delimiters that start with a single byte, and that has an answer,
into the store. -/
def protectDelimited (store : FragmentStore) (delimiters : Scan.Delimiters)
    (answer : Text -> Option Text) (text : Text) : FragmentStore × Text :=
  let ((_, store), text) := Scan.editDelimited delimiters
    (stored fun (_ : Unit) body => ((), answer body)) ((), store) text
  (store, text)

/-- Move all inline math between single dollars into the store. -/
def protectDollars (store : FragmentStore) (answer : Text -> Text) (text : Text) :
    FragmentStore × Text :=
  Scan.editDollars (fun store body => FragmentStore.push store (answer body)) store text

end FragmentStore

end LatexMarkdown
