import LatexMarkdown.Document.Convert

/-!
# The parts of a conversion

Code is stored first. Up to the restoration the passes move fragments into the
store and convert what is left; the restoration and the layout of the finished
document come last.
-/

namespace LatexMarkdown.Document

/-- The passes up to the storing of code. -/
def codePasses : List Pass :=
  [.stripComments, .neutralizeTokens, .protectCode]

/-- The passes between the storing of code and the restoration. -/
def middlePasses : List Pass :=
  preamblePasses ++ [Pass.numberKeys] ++ protectionPasses ++ [Pass.resolveReferences] ++
    structurePasses ++ [Pass.normalizeSymbols, Pass.normalizeBlanks]

/-- The restoration and the pass after it. -/
def lastPasses : List Pass :=
  [.restoreFragments, .finishLayout]

/-- The passes between the storing of code and that of tables. -/
def earlyPasses : List Pass :=
  preamblePasses ++ [.numberKeys, .protectLinks]

/-- The passes between the storing of tables and the restoration. -/
def latePasses : List Pass :=
  middlePasses.drop (earlyPasses.length + 1)

theorem middlePasses_eq : middlePasses = earlyPasses ++ .protectTables :: latePasses :=
  rfl

/-- A conversion makes these passes one after another. -/
theorem conversionPasses_eq : conversionPasses = codePasses ++ middlePasses ++ lastPasses :=
  rfl

/-- The state and the text at the moment of the restoration. In a blank document
nothing is looked at. -/
def beforeRestoration (options : Options) (source : Text) : State × Text :=
  if Text.isBlankText source then (.start options, [])
  else runPasses (codePasses ++ middlePasses) (.start options) source

/-- A conversion restores the fragments and finishes the layout. -/
theorem run_eq (options : Options) (source : Text) :
    run options source =
      ((beforeRestoration options source).1,
        Text.finishLayout ((beforeRestoration options source).1.store.restore
          (beforeRestoration options source).2)) := by
  rw [run, beforeRestoration]
  split
  · rfl
  · rw [conversionPasses_eq, runPasses_append]
    rfl

end LatexMarkdown.Document
