import LatexMarkdown.Document.Pass

/-!
# Converting a document

A conversion gives the output together with everything a caller may want to
know about it. It never fails.
-/

namespace LatexMarkdown.Document

/-- What a conversion gives. -/
structure Result where
  output : Text
  warnings : List Warning
  metadata : Metadata
  labels : KeyedList Text
  citations : KeyedList Nat
  deriving DecidableEq, Repr

/-- The state and the text after a conversion. A document of blanks is not
looked at. -/
def run (options : Options) (source : Text) : State × Text :=
  if Text.isBlankText source then (.start options, [])
  else runPasses conversionPasses (.start options) source

/-- Whether a conversion comes to an end. A table may show itself again in the
value of a colour; a conversion leaves such a table out. -/
def comesToEnd (options : Options) (source : Text) : Bool :=
  if Text.isBlankText source then true
  else
    let (state, text) :=
      runPasses (conversionPasses.takeWhile (· ≠ .protectTables)) (.start options) source
    Table.allEnd state.tableContext ⟨state.warnings, state.store⟩ text

/-- Convert a document. -/
def convert (options : Options) (source : Text) : Result :=
  let (state, output) := run options source
  ⟨output, state.warnings, state.metadata, state.labels.rendered, state.citations.entries⟩

end LatexMarkdown.Document
