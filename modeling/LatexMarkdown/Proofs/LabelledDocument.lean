import LatexMarkdown.Math.Family
import LatexMarkdown.Numbering.Reference
import LatexMarkdown.Proofs.CodeBlock
import LatexMarkdown.Proofs.SingleCell
import LatexMarkdown.Proofs.Turning

/-!
# Documents with labels

A document of headings, paragraphs and numbered formulas, separated by blank lines,
with a last paragraph of references. Headings and formulas carry labels; every
formula stands behind a paragraph that is long enough to keep headings away from its
label.
-/

namespace LatexMarkdown.Document

open Scan Alternation

/-- A key is not empty and has no blanks and none of the signs that are not taken as
they are; letters, digits and colons are all right. -/
def IsKey (key : Text) : Prop :=
  key ≠ [] ∧ ∀ c ∈ key, Text.isBlank c = false ∧ c ∉ "\\\x7b\x7d,%$@".toList

instance (key : Text) : Decidable (IsKey key) :=
  inferInstanceAs (Decidable (_ ∧ _))

/-- The letters of a formula. -/
def IsLetters (text : Text) : Prop :=
  ∀ c ∈ text, c.isAlpha = true

instance (text : Text) : Decidable (IsLetters text) :=
  List.decidableBAll (fun (c : Char) => c.isAlpha = true) text

theorem IsKey.not_mem {key : Text} (isKey : IsKey key) {sign : Char}
    (foreign : sign ∈ "\\\x7b\x7d,%$@".toList) : sign ∉ key :=
  fun member => (isKey.2 sign member).2 foreign

theorem IsKey.isArgument {key : Text} (isKey : IsKey key) : IsArgument key := by
  intro c member listed
  have signs : ∀ sign ∈ ['\\', '\x7b', '\x7d'], sign ∈ "\\\x7b\x7d,%$@".toList := by decide
  exact isKey.not_mem (signs c listed) member

theorem IsKey.trim_eq {key : Text} (isKey : IsKey key) : Text.trim key = key :=
  Text.trim_of_visible (fun c head => (isKey.2 c (List.mem_of_head? head)).1)
    (fun c last => (isKey.2 c (List.mem_of_getLast? last)).1)

theorem IsLetters.not_mem {text : Text} (letters : IsLetters text) {sign : Char}
    (foreign : sign.isAlpha = false) : sign ∉ text := by
  intro member
  have letter := letters sign member
  rw [foreign] at letter
  exact Bool.false_ne_true letter

/-- What a labelled document is put together from. -/
inductive Segment where
  | text (content : Text)
  | heading (title : Text)
  | label (key : Text)
  | equation (body key : Text)
  /-- A reference, in parentheses or as it is. -/
  | reference (parentheses : Bool) (key : Text)
  deriving DecidableEq, Repr

namespace Segment

/-- The command of a reference. -/
def referenceName (parentheses : Bool) : Text :=
  if parentheses then "eqref".toList else "ref".toList

/-- The segment as the source spells it. -/
def source : Segment → Text
  | text content => content
  | heading title => use "section".toList title
  | label key => use "label".toList key
  | equation body key => enclosed "equation".toList (body ++ use "label".toList key)
  | reference parentheses key => use (referenceName parentheses) key

/-- The text of several segments. -/
def sources (segments : List Segment) : Text :=
  segments.flatMap source

@[simp] theorem sources_nil : sources [] = [] :=
  rfl

@[simp] theorem sources_cons (segment : Segment) (others : List Segment) :
    sources (segment :: others) = segment.source ++ sources others :=
  rfl

theorem sources_append (first second : List Segment) :
    sources (first ++ second) = sources first ++ sources second :=
  List.flatMap_append

/-- The heads of the commands that a segment spells. -/
def heads : Segment → List Text
  | text _ => []
  | heading _ => ["section\x7b".toList]
  | label _ => ["label\x7b".toList]
  | equation _ _ => ["begin\x7bequation\x7d".toList, "label\x7b".toList, "end\x7bequation\x7d".toList]
  | reference parentheses _ => [referenceName parentheses ++ ['\x7b']]

/-- A segment spells its commands and no others. -/
def Fits : Segment → Prop
  | text content => '\\' ∉ content
  | heading title => IsArgument title
  | label key => IsKey key
  | equation body key => IsLetters body ∧ IsKey key
  | reference _ key => IsKey key

/-- A label and what stands before it in its formula open and close no environment. -/
theorem isSealed_equation {body key : Text} (letters : IsLetters body) (isKey : IsKey key) :
    IsSealed (body ++ use "label".toList key) := by
  have spells : Spells ["label\x7b".toList] (body ++ use "label".toList key) :=
    (Spells.of_plain (letters.not_mem (by decide))).append
      (spells_use (by decide) isKey.isArgument)
  have lacks : Lacks ["begin\x7b".toList, "end\x7b".toList] (body ++ use "label".toList key) :=
    spells.lacks (by decide)
  exact ⟨lacks _ (by decide), lacks _ (by decide)⟩

theorem spells_beginEquation :
    Spells ["begin\x7bequation\x7d".toList] (beginMarker "equation".toList) :=
  Spells.single (by decide)

theorem spells_endEquation :
    Spells ["end\x7bequation\x7d".toList] (endMarker "equation".toList) :=
  Spells.single (by decide)

theorem spells {segment : Segment} (fits : segment.Fits) : Spells segment.heads segment.source := by
  cases segment with
  | text content => exact .of_plain fits
  | heading title => exact spells_use (by decide) fits
  | label key => exact spells_use (by decide) fits.isArgument
  | reference parentheses key =>
    refine spells_use ?_ fits.isArgument
    cases parentheses <;> decide
  | equation body key =>
    obtain ⟨letters, isKey⟩ := fits
    have opening : Spells (equation body key).heads (beginMarker "equation".toList) :=
      spells_beginEquation.mono (by simp [heads])
    have closing : Spells (equation body key).heads (endMarker "equation".toList) :=
      spells_endEquation.mono (by simp [heads])
    have label : Spells (equation body key).heads (use "label".toList key) :=
      (spells_use (by decide) isKey.isArgument).mono (by simp [heads])
    have plain : '\\' ∉ body := letters.not_mem (by decide)
    exact opening.append (((Spells.of_plain plain).append label).append closing)

/-- A sign does not stand in what is free in a segment. -/
def Avoids (sign : Char) : Segment → Prop
  | text content | heading content => sign ∉ content
  | label key | reference _ key => sign ∉ key
  | equation body key => sign ∉ body ∧ sign ∉ key

/-- The signs that no command of a segment has. -/
def foreignSigns : List Char :=
  "%$@".toList

theorem not_mem_use {sign : Char} {name argument : Text}
    (foreign : sign ∉ '\\' :: (name ++ ['\x7b', '\x7d'])) (absent : sign ∉ argument) :
    sign ∉ use name argument := by
  simp only [use, List.mem_cons, List.mem_append, List.not_mem_nil, or_false, not_or] at foreign ⊢
  exact ⟨foreign.1, foreign.2.1, foreign.2.2.1, absent, foreign.2.2.2⟩

theorem not_mem_source {sign : Char} (foreign : sign ∈ foreignSigns) {segment : Segment}
    (avoids : segment.Avoids sign) : sign ∉ segment.source := by
  have around : ∀ sign ∈ foreignSigns,
      (∀ name ∈ ["section", "label", "eqref", "ref"].map String.toList,
        sign ∉ '\\' :: (name ++ ['\x7b', '\x7d'])) ∧
      sign ∉ beginMarker "equation".toList ∧ sign ∉ endMarker "equation".toList := by decide
  obtain ⟨names, opening, closing⟩ := around sign foreign
  cases segment with
  | text content => exact avoids
  | heading title => exact not_mem_use (names _ (by decide)) avoids
  | label key => exact not_mem_use (names _ (by decide)) avoids
  | reference parentheses key =>
    refine not_mem_use (names _ ?_) avoids
    cases parentheses <;> decide
  | equation body key =>
    have label : sign ∉ use "label".toList key := not_mem_use (names _ (by decide)) avoids.2
    simp only [source, enclosed, List.mem_append, not_or]
    exact ⟨opening, ⟨avoids.1, label⟩, closing⟩

theorem not_mem_sources {sign : Char} (foreign : sign ∈ foreignSigns) {segments : List Segment}
    (avoids : ∀ segment ∈ segments, segment.Avoids sign) : sign ∉ sources segments := by
  intro member
  obtain ⟨segment, listed, inside⟩ := List.mem_flatMap.mp member
  exact not_mem_source foreign (avoids segment listed) inside

/-- Several segments spell the commands of each of them. -/
theorem spells_sources {names : List Text} {segments : List Segment}
    (fits : ∀ segment ∈ segments, segment.Fits)
    (within : ∀ segment ∈ segments, segment.heads ⊆ names) : Spells names (sources segments) :=
  Spells.flatMap fun segment listed => (spells (fits segment listed)).mono (within segment listed)

end Segment

/-- A part of a labelled document. -/
inductive Part where
  | heading (title key : Text)
  | paragraph (text : Text)
  /-- A numbered formula with the paragraph before it. -/
  | equation (lead body key : Text)
  deriving DecidableEq, Repr

namespace Part

/-- What separates paragraphs. -/
def blankLine : Segment :=
  .text ['\n', '\n']

/-- The segments of a part, each paragraph with the blank line behind it. -/
def segments : Part → List Segment
  | heading title key => [.heading title, .label key, blankLine]
  | paragraph text => [.text text, blankLine]
  | equation lead body key => [.text lead, blankLine, .equation body key, blankLine]

/-- A heading with its command has at most as many characters as may lie between a
heading and its label, and a paragraph before a formula has at least as many. -/
def WellFormed : Part → Prop
  | heading title key =>
    IsWordText title ∧ (Segment.heading title).source.length ≤ Numbering.headingWindow ∧ IsKey key
  | paragraph text => IsWordText text ∧ Text.isBlankText text = false
  | equation lead body key =>
    IsWordText lead ∧ Numbering.headingWindow ≤ lead.length ∧ IsLetters body ∧ IsKey key

instance : (part : Part) → Decidable part.WellFormed
  | heading _ _ => inferInstanceAs (Decidable (_ ∧ _ ∧ _))
  | paragraph _ => inferInstanceAs (Decidable (_ ∧ _))
  | equation _ _ _ => inferInstanceAs (Decidable (_ ∧ _ ∧ _ ∧ _))

/-- The numbers that labels get, sections and formulas counted apart. -/
def numbersFrom : (sections equations : Nat) → List Part → KeyedList LabelNumber
  | _, _, [] => []
  | sections, equations, heading _ key :: others =>
    (key, ⟨.heading, sections + 1⟩) :: numbersFrom (sections + 1) equations others
  | sections, equations, paragraph _ :: others => numbersFrom sections equations others
  | sections, equations, equation _ _ key :: others =>
    (key, ⟨.equation, equations + 1⟩) :: numbersFrom sections (equations + 1) others

/-- A formula on lines of its own, with its number as a tag. -/
def shownFormula (number : Nat) (body : Text) : Text :=
  "$$\n".toList ++ body ++ " \\tag".toList ++ '\x7b' :: Text.ofNat number ++ "\x7d\n$$".toList

theorem shownFormula_eq (number : Nat) (body : Text) : shownFormula number body =
    "$$\n".toList ++ body ++ " \\tag".toList ++ '\x7b' :: Text.ofNat number ++ "\x7d\n$$".toList :=
  rfl

/-- The paragraphs that the output shows for parts, behind a number of formulas. -/
def shownFrom : (equations : Nat) → List Part → List Text
  | _, [] => []
  | equations, heading title _ :: others =>
    Text.trim ("# ".toList ++ Text.trim title) :: shownFrom equations others
  | equations, paragraph text :: others => Text.trim text :: shownFrom equations others
  | equations, equation lead body _ :: others =>
    Text.trim lead :: shownFormula (equations + 1) body :: shownFrom (equations + 1) others

end Part

/-- A reference to a label, perhaps with a space before it. -/
structure Reference where
  spaced : Bool
  parentheses : Bool
  key : Text
  deriving DecidableEq, Repr

namespace Reference

/-- What stands before a reference. -/
def gap (reference : Reference) : Text :=
  if reference.spaced then [' '] else []

def segments (reference : Reference) : List Segment :=
  [.text reference.gap, .reference reference.parentheses reference.key]

/-- The number of a label, in parentheses if it is that of a formula or if the
reference asks for them. -/
def shown (numbers : KeyedList LabelNumber) (reference : Reference) : Text :=
  match KeyedList.find? numbers reference.key with
  | none => Numbering.unknownLabel
  | some label =>
    if reference.parentheses then '(' :: Text.ofNat label.number ++ [')'] else label.render

end Reference

/-- Parts, then a paragraph of references. -/
structure LabelledDocument where
  parts : List Part
  references : List Reference
  deriving DecidableEq, Repr

namespace LabelledDocument

def segments (document : LabelledDocument) : List Segment :=
  document.parts.flatMap Part.segments ++ document.references.flatMap Reference.segments

def source (document : LabelledDocument) : Text :=
  Segment.sources document.segments

/-- The numbers of all labels. -/
def numbers (document : LabelledDocument) : KeyedList LabelNumber :=
  Part.numbersFrom 0 0 document.parts

/-- The paragraph of the references, with the numbers in their place. -/
def shownReferences (document : LabelledDocument) : Text :=
  Text.trim (document.references.flatMap fun reference =>
    reference.gap ++ reference.shown document.numbers)

/-- The output: all paragraphs with a blank line between them, and an empty line
before a heading at the start. -/
def output (document : LabelledDocument) : Text :=
  (match document.parts with
    | .heading _ _ :: _ => ['\n']
    | _ => []) ++
    Text.joinWith ['\n', '\n'] (Part.shownFrom 0 document.parts ++ [document.shownReferences])

/-- The parts are well-formed, no key is declared twice, and there are references, all
of them to declared keys. -/
structure WellFormed (document : LabelledDocument) : Prop where
  parts : ∀ part ∈ document.parts, part.WellFormed
  distinct : (document.numbers.map Prod.fst).Nodup
  referring : document.references ≠ []
  declared : ∀ reference ∈ document.references, reference.key ∈ document.numbers.map Prod.fst

end LabelledDocument

/-! ## What well-formed documents spell -/

theorem Alternation.IsWordText.isArgument {text : Text} (words : IsWordText text) : IsArgument text := by
  intro c member listed
  have foreign : ∀ sign ∈ ['\\', '\x7b', '\x7d'], sign.isAlpha = false ∧ sign ≠ ' ' := by decide
  exact words.not_mem (foreign c listed) member

theorem LabelledDocument.source_eq (document : LabelledDocument) :
    document.source = document.parts.flatMap (fun part => Segment.sources part.segments) ++
      Segment.sources (document.references.flatMap Reference.segments) := by
  rw [source, segments, Segment.sources_append, Segment.sources, List.flatMap_assoc]
  rfl

theorem Reference.fits {reference : Reference} (isKey : IsKey reference.key) :
    ∀ segment ∈ reference.segments, segment.Fits := by
  have gap : '\\' ∉ reference.gap := by
    rw [Reference.gap]
    split <;> decide
  simp only [Reference.segments, List.forall_mem_cons]
  exact ⟨gap, isKey, List.forall_mem_nil _⟩

theorem Part.WellFormed.fits {part : Part} (wellFormed : part.WellFormed) :
    ∀ segment ∈ part.segments, segment.Fits := by
  have separator : Part.blankLine.Fits := (by decide : '\\' ∉ ['\n', '\n'])
  have plain {text : Text} (words : IsWordText text) : (Segment.text text).Fits :=
    words.isArgument.plain
  cases part with
  | heading title key =>
    obtain ⟨words, -, isKey⟩ := wellFormed
    simp only [Part.segments, List.forall_mem_cons]
    exact ⟨words.isArgument, isKey, separator, List.forall_mem_nil _⟩
  | paragraph text =>
    simp only [Part.segments, List.forall_mem_cons]
    exact ⟨plain wellFormed.1, separator, List.forall_mem_nil _⟩
  | equation lead body key =>
    obtain ⟨words, -, letters, isKey⟩ := wellFormed
    simp only [Part.segments, List.forall_mem_cons]
    exact ⟨plain words, separator, ⟨letters, isKey⟩, separator, List.forall_mem_nil _⟩

/-- The keys with numbers are keys. -/
theorem Part.isKey_of_mem_numbersFrom {parts : List Part}
    (wellFormed : ∀ part ∈ parts, part.WellFormed) {sections equations : Nat} {key : Text}
    (declared : key ∈ (Part.numbersFrom sections equations parts).map Prod.fst) : IsKey key := by
  induction parts generalizing sections equations with
  | nil => exact absurd declared List.not_mem_nil
  | cons part others inductionHypothesis =>
    rw [List.forall_mem_cons] at wellFormed
    cases part with
    | heading title own =>
      rcases List.mem_cons.mp declared with rfl | later
      · exact wellFormed.1.2.2
      · exact inductionHypothesis wellFormed.2 later
    | paragraph text => exact inductionHypothesis wellFormed.2 declared
    | equation lead body own =>
      rcases List.mem_cons.mp declared with rfl | later
      · exact wellFormed.1.2.2.2
      · exact inductionHypothesis wellFormed.2 later

theorem LabelledDocument.WellFormed.isKey {document : LabelledDocument}
    (wellFormed : document.WellFormed) {reference : Reference}
    (listed : reference ∈ document.references) : IsKey reference.key :=
  Part.isKey_of_mem_numbersFrom wellFormed.parts (wellFormed.declared reference listed)

theorem Alternation.IsWordText.avoids {text : Text} (words : IsWordText text) {sign : Char}
    (foreign : sign ∈ Segment.foreignSigns) : sign ∉ text := by
  have signs : ∀ sign ∈ Segment.foreignSigns, sign.isAlpha = false ∧ sign ≠ ' ' := by decide
  exact words.not_mem (signs sign foreign)

theorem IsKey.avoids {key : Text} (isKey : IsKey key) {sign : Char}
    (foreign : sign ∈ Segment.foreignSigns) : sign ∉ key := by
  have signs : ∀ sign ∈ Segment.foreignSigns, sign ∈ "\\\x7b\x7d,%$@".toList := by decide
  exact isKey.not_mem (signs sign foreign)

theorem IsLetters.avoids {text : Text} (letters : IsLetters text) {sign : Char}
    (foreign : sign ∈ Segment.foreignSigns) : sign ∉ text := by
  have signs : ∀ sign ∈ Segment.foreignSigns, sign.isAlpha = false := by decide
  exact letters.not_mem (signs sign foreign)

theorem Part.blankLine_avoids {sign : Char} (foreign : sign ∈ Segment.foreignSigns) :
    Part.blankLine.Avoids sign := by
  have signs : ∀ sign ∈ Segment.foreignSigns, sign ∉ ['\n', '\n'] := by decide
  exact signs sign foreign

theorem Part.WellFormed.avoids {part : Part} (wellFormed : part.WellFormed) {sign : Char}
    (foreign : sign ∈ Segment.foreignSigns) : ∀ segment ∈ part.segments, segment.Avoids sign := by
  have separator := Part.blankLine_avoids foreign
  cases part with
  | heading title key =>
    obtain ⟨words, -, isKey⟩ := wellFormed
    simp only [Part.segments, List.forall_mem_cons]
    exact ⟨words.avoids foreign, isKey.avoids foreign, separator, List.forall_mem_nil _⟩
  | paragraph text =>
    simp only [Part.segments, List.forall_mem_cons]
    exact ⟨wellFormed.1.avoids foreign, separator, List.forall_mem_nil _⟩
  | equation lead body key =>
    obtain ⟨words, -, letters, isKey⟩ := wellFormed
    simp only [Part.segments, List.forall_mem_cons]
    exact ⟨words.avoids foreign, separator, ⟨letters.avoids foreign, isKey.avoids foreign⟩,
      separator, List.forall_mem_nil _⟩

theorem Reference.avoids {reference : Reference} (isKey : IsKey reference.key) {sign : Char}
    (foreign : sign ∈ Segment.foreignSigns) :
    ∀ segment ∈ reference.segments, segment.Avoids sign := by
  have gap : sign ∉ reference.gap := by
    have signs : ∀ sign ∈ Segment.foreignSigns, sign ∉ [' '] := by decide
    rw [Reference.gap]
    split
    · exact signs sign foreign
    · exact List.not_mem_nil
  simp only [Reference.segments, List.forall_mem_cons]
  exact ⟨gap, isKey.avoids foreign, List.forall_mem_nil _⟩

/-- The heads of references. -/
def Reference.heads : List Text :=
  ["ref\x7b".toList, "eqref\x7b".toList]

theorem Reference.heads_subset (reference : Reference) :
    ∀ segment ∈ reference.segments, segment.heads ⊆ Reference.heads := by
  intro segment inside
  simp only [Reference.segments, List.mem_cons, List.not_mem_nil, or_false] at inside
  rcases inside with rfl | rfl
  · exact List.nil_subset _
  · cases reference.parentheses <;> simp [Segment.heads, Segment.referenceName, Reference.heads]

/-- A paragraph of references spells no other commands. -/
theorem LabelledDocument.WellFormed.spells_references {document : LabelledDocument}
    (wellFormed : document.WellFormed) :
    Spells Reference.heads (Segment.sources (document.references.flatMap Reference.segments)) := by
  refine Segment.spells_sources (fun segment member => ?_) fun segment member => ?_
  · obtain ⟨reference, listed, inside⟩ := List.mem_flatMap.mp member
    exact Reference.fits (wellFormed.isKey listed) segment inside
  · obtain ⟨reference, -, inside⟩ := List.mem_flatMap.mp member
    exact reference.heads_subset segment inside

/-- The heads of all commands of a labelled document. -/
def LabelledDocument.heads : List Text :=
  ["section\x7b".toList, "label\x7b".toList, "begin\x7bequation\x7d".toList,
    "end\x7bequation\x7d".toList] ++ Reference.heads

theorem Segment.heads_subset (segment : Segment) : segment.heads ⊆ LabelledDocument.heads := by
  cases segment with
  | reference parentheses key =>
    cases parentheses <;>
      simp [heads, referenceName, LabelledDocument.heads, Reference.heads]
  | _ => simp [heads, LabelledDocument.heads]

theorem LabelledDocument.WellFormed.fits {document : LabelledDocument}
    (wellFormed : document.WellFormed) : ∀ segment ∈ document.segments, segment.Fits := by
  intro segment member
  rcases List.mem_append.mp member with inPart | inReference
  · obtain ⟨part, listed, inside⟩ := List.mem_flatMap.mp inPart
    exact (wellFormed.parts part listed).fits segment inside
  · obtain ⟨reference, listed, inside⟩ := List.mem_flatMap.mp inReference
    exact Reference.fits (wellFormed.isKey listed) segment inside

theorem LabelledDocument.WellFormed.not_mem_references {document : LabelledDocument}
    (wellFormed : document.WellFormed) {sign : Char} (foreign : sign ∈ Segment.foreignSigns) :
    sign ∉ Segment.sources (document.references.flatMap Reference.segments) := by
  refine Segment.not_mem_sources foreign fun segment member => ?_
  obtain ⟨reference, listed, inside⟩ := List.mem_flatMap.mp member
  exact Reference.avoids (wellFormed.isKey listed) foreign segment inside

theorem LabelledDocument.WellFormed.not_mem_source {document : LabelledDocument}
    (wellFormed : document.WellFormed) {sign : Char} (foreign : sign ∈ Segment.foreignSigns) :
    sign ∉ document.source := by
  rw [source, segments, Segment.sources_append, List.mem_append, not_or]
  refine ⟨Segment.not_mem_sources foreign fun segment member => ?_,
    wellFormed.not_mem_references foreign⟩
  obtain ⟨part, listed, inside⟩ := List.mem_flatMap.mp member
  exact (wellFormed.parts part listed).avoids foreign segment inside

theorem LabelledDocument.WellFormed.spells {document : LabelledDocument}
    (wellFormed : document.WellFormed) : Spells LabelledDocument.heads document.source :=
  Segment.spells_sources wellFormed.fits fun segment _ => segment.heads_subset

end LatexMarkdown.Document
