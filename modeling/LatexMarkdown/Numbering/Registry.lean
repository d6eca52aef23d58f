import LatexMarkdown.KeyedList
import LatexMarkdown.Text.Basic

/-!
# Numbers of labels and citations

Labels of sections and labels of everything else are counted apart, and so are
bibliography items. A key that is declared again takes the later number and
keeps its place in the order of keys.
-/

namespace LatexMarkdown

/-- What a label numbers. -/
inductive LabelKind where
  /-- A heading; the number stands bare. -/
  | heading
  /-- Anything else; the number stands in parentheses. -/
  | equation
  deriving DecidableEq, Repr

/-- The number of a label. -/
structure LabelNumber where
  kind : LabelKind
  number : Nat
  deriving DecidableEq, Repr

namespace LabelNumber

/-- The number as a reference shows it. -/
def render (label : LabelNumber) : Text :=
  match label.kind with
  | .heading => Text.ofNat label.number
  | .equation => '(' :: Text.ofNat label.number ++ [')']

end LabelNumber

/-- The labels declared so far, and how many of each kind there were. -/
structure LabelRegistry where
  entries : KeyedList LabelNumber
  sections : Nat
  equations : Nat
  deriving DecidableEq, Repr

namespace LabelRegistry

/-- No label is declared. -/
def empty : LabelRegistry :=
  ⟨[], 0, 0⟩

/-- The number of a key. -/
def find? (labels : LabelRegistry) (key : Text) : Option LabelNumber :=
  KeyedList.find? labels.entries key

/-- Give a key the next number of a kind; the answer says whether the key had a
number before. -/
def declare (labels : LabelRegistry) (key : Text) (kind : LabelKind) : LabelRegistry × Bool :=
  let sections := labels.sections + (if kind = .heading then 1 else 0)
  let equations := labels.equations + (if kind = .equation then 1 else 0)
  let number := if kind = .heading then sections else equations
  (⟨KeyedList.put labels.entries key ⟨kind, number⟩, sections, equations⟩,
    (labels.find? key).isSome)

/-- The keys with the numbers that references show, in order of declaration. -/
def rendered (labels : LabelRegistry) : KeyedList Text :=
  labels.entries.map fun (key, label) => (key, label.render)

end LabelRegistry

/-- The bibliography items declared so far, and how many there were. -/
structure CitationRegistry where
  entries : KeyedList Nat
  count : Nat
  deriving DecidableEq, Repr

namespace CitationRegistry

/-- No item is declared. -/
def empty : CitationRegistry :=
  ⟨[], 0⟩

/-- The number of a key. -/
def find? (citations : CitationRegistry) (key : Text) : Option Nat :=
  KeyedList.find? citations.entries key

/-- Give a key the next number; the answer says whether it had one before. -/
def declare (citations : CitationRegistry) (key : Text) : CitationRegistry × Bool :=
  (⟨KeyedList.put citations.entries key (citations.count + 1), citations.count + 1⟩,
    (citations.find? key).isSome)

end CitationRegistry

end LatexMarkdown
