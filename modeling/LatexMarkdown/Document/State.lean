import LatexMarkdown.Fragment.Store
import LatexMarkdown.Numbering.Registry
import LatexMarkdown.Color
import LatexMarkdown.Options.Basic
import LatexMarkdown.Preamble.Metadata
import LatexMarkdown.Warning

/-!
# What a conversion keeps

Besides the text, a conversion keeps what it has learned from the document and
what it has to report. All of it belongs to one document.
-/

namespace LatexMarkdown.Document

/-- What a conversion has learned so far. -/
structure State where
  options : Options
  colors : ColorTable
  labels : LabelRegistry
  citations : CitationRegistry
  metadata : Metadata
  store : FragmentStore
  theorems : KeyedList Text
  warnings : List Warning
  deriving DecidableEq, Repr

namespace State

/-- Nothing is known of the document yet. -/
def start (options : Options) : State :=
  ⟨options, .empty, .empty, .empty, .empty, .empty, [], []⟩

/-- Report warnings after those reported before. -/
def warn (state : State) (warnings : List Warning) : State :=
  { state with warnings := state.warnings ++ warnings }

end State

end LatexMarkdown.Document
