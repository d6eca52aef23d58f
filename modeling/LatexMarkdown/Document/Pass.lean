import LatexMarkdown.Block.Environment
import LatexMarkdown.Block.Line
import LatexMarkdown.Block.List
import LatexMarkdown.Block.Region
import LatexMarkdown.Code.Comment
import LatexMarkdown.Code.Verbatim
import LatexMarkdown.Document.State
import LatexMarkdown.Inline.Format
import LatexMarkdown.Inline.Heading
import LatexMarkdown.Inline.Spacing
import LatexMarkdown.Link
import LatexMarkdown.Math.Protect
import LatexMarkdown.Preamble.Definition
import LatexMarkdown.Symbol.Normalize
import LatexMarkdown.Table.Protect
import LatexMarkdown.Text.Layout

/-!
# Passes over a document

A pass goes over the whole text once, and reads and writes the state. A
conversion is a list of passes; their order matters, since each relies on what
the passes before it have moved out of the text.
-/

namespace LatexMarkdown.Document

/-- All passes that a conversion can make. -/
inductive Pass where
  | stripComments
  | neutralizeTokens
  | protectCode
  | captureMetadata
  | captureColors
  | captureTheorems
  | extractBody
  | stripDeclarations
  | expandTitle
  | numberKeys
  | protectLinks
  | protectTables
  | protectArrays
  | protectFormulas
  | resolveReferences
  | stripIndentation
  | convertItems
  | convertLines
  | convertLists
  | convertFloats
  | convertCaptions
  | convertRegions
  | convertHeadings
  | convertNotes
  | convertFormat
  | convertBoxes
  | convertSpacing
  | convertTheorems
  | dropUnknown
  | normalizeSymbols
  | normalizeBlanks
  | restoreFragments
  | finishLayout
  deriving DecidableEq, Repr

namespace State

/-- Take what a pass has stored. -/
def keepStore (state : State) (result : FragmentStore × Text) : State × Text :=
  ({ state with store := result.1 }, result.2)

/-- Number all keys of a text anew, and report the keys that are declared again. -/
def number (state : State) (text : Text) : State :=
  let numbers := Numbering.scan text
  { state with labels := numbers.labels, citations := numbers.citations }.warn numbers.warnings

/-- What tables depend on. -/
def tableContext (state : State) : Table.TableContext :=
  ⟨state.options.preview, state.colors, state.labels, state.citations⟩

/-- What theorem-like environments depend on. -/
def theoremContext (state : State) : Block.TheoremContext :=
  ⟨state.options, state.store, state.theorems⟩

end State

/-- Make one pass over a text. -/
def Pass.run (pass : Pass) (state : State) (text : Text) : State × Text :=
  match pass with
  | stripComments => (state, Code.stripComments text)
  | neutralizeTokens => (state, Fragment.neutralize text)
  | protectCode => state.keepStore (Code.protect state.options state.store text)
  | captureMetadata =>
    let (metadata, text) := state.metadata.capture text
    ({ state with metadata }, text)
  | captureColors =>
    let (colors, text) := Preamble.captureColors state.colors text
    ({ state with colors }, text)
  | captureTheorems =>
    let (theorems, text) := Preamble.captureTheorems state.theorems text
    ({ state with theorems }, text)
  | extractBody => (state, Preamble.documentBody text)
  | stripDeclarations => (state, Preamble.stripDeclarations text)
  | expandTitle => (state, state.metadata.expandTitle state.options.preview text)
  | numberKeys => (state.number text, text)
  | protectLinks => state.keepStore (Link.protect state.options.preview state.store text)
  | protectTables =>
    let (sink, text) :=
      Table.protect state.tableContext ⟨state.warnings, state.store⟩ text
    ({ state with warnings := sink.warnings, store := sink.store }, text)
  | protectArrays =>
    state.keepStore (Table.protectArrays state.options.preview state.colors state.store text)
  | protectFormulas =>
    state.keepStore
      (Math.protect state.colors state.labels state.options.preview state.store text)
  | resolveReferences =>
    let (warnings, text) :=
      Numbering.resolveReferences state.labels state.citations state.warnings text
    ({ state with warnings }, text)
  | stripIndentation => (state, Text.stripIndentation text)
  | convertItems => (state, Block.convertItems state.citations text)
  | convertLines => (state, Block.convertLines text)
  | convertLists => (state, Block.convertLists text)
  | convertFloats => (state, Block.convertFloats text)
  | convertCaptions => (state, Inline.convertCaptions text)
  | convertRegions => (state, Block.convertRegions text)
  | convertHeadings => (state, Inline.convertHeadings text)
  | convertNotes => (state, Inline.convertNotes text)
  | convertFormat =>
    let (warnings, text) := Inline.convertFormat state.colors text
    (state.warn warnings, text)
  | convertBoxes => (state, Inline.convertBoxes text)
  | convertSpacing => (state, Inline.convertSpacing text)
  | convertTheorems => (state, Block.convertTheorems state.theoremContext text)
  | dropUnknown =>
    let (warnings, text) := Block.dropUnknown text
    (state.warn warnings, text)
  | normalizeSymbols => (state, Symbol.normalize text)
  | normalizeBlanks => (state, Text.normalizeBlanks text)
  | restoreFragments => (state, state.store.restore text)
  | finishLayout => (state, Text.finishLayout text)

/-- Make passes over a text, one after another. -/
def runPasses : List Pass -> State -> Text -> State × Text
  | [], state, text => (state, text)
  | pass :: others, state, text =>
    let (state, text) := pass.run state text
    runPasses others state text

/-- The passes that take the title block and the definitions out of a document. -/
def preamblePasses : List Pass :=
  [.captureMetadata, .captureColors, .captureTheorems, .extractBody, .stripDeclarations,
    .expandTitle]

/-- The passes that move finished fragments into the store. -/
def protectionPasses : List Pass :=
  [.protectLinks, .protectTables, .protectArrays, .protectFormulas]

/-- The passes that convert the structure of a document and its markup. -/
def structurePasses : List Pass :=
  [.stripIndentation, .convertItems, .convertLines, .convertLists, .convertFloats,
    .convertCaptions, .convertRegions, .convertHeadings, .convertNotes, .convertFormat,
    .convertBoxes, .convertSpacing, .convertTheorems, .dropUnknown]

/-- The passes of a whole conversion. Code is moved into the store before the
preamble is read, keys are numbered before anything else is stored, and the
fragments come back when nothing can change them any more. -/
def conversionPasses : List Pass :=
  [.stripComments, .neutralizeTokens, .protectCode] ++ preamblePasses ++ [.numberKeys] ++
    protectionPasses ++ [.resolveReferences] ++ structurePasses ++
    [.normalizeSymbols, .normalizeBlanks, .restoreFragments, .finishLayout]

/-- Running a list of passes and then another is running both as one list. -/
theorem runPasses_append (first second : List Pass) (state : State) (text : Text) :
    runPasses (first ++ second) state text =
      runPasses second (runPasses first state text).1 (runPasses first state text).2 := by
  induction first generalizing state text with
  | nil => rfl
  | cons pass others inductionHypothesis =>
    simp [runPasses, inductionHypothesis]

end LatexMarkdown.Document
