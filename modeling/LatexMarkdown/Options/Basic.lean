import LatexMarkdown.Text.Basic

/-!
# Conversion options

A conversion writes the whole document or a short preview of it. In a preview,
code and theorem-like environments are cut to a number of characters each.
-/

namespace LatexMarkdown

/-- What a reader of the output wants. -/
structure Options where
  preview : Bool
  verbatimLimit : Nat
  environmentLimit : Nat
  deriving DecidableEq, Repr

/-- Why options are refused. -/
inductive OptionsError where
  /-- The text of the options cannot be read. -/
  | malformed
  /-- No character of code would be left. -/
  | noVerbatim
  /-- No character of an environment would be left. -/
  | noEnvironment
  deriving DecidableEq, Repr

namespace OptionsError

/-- The reason in words. -/
def message : OptionsError -> Text
  | malformed => "the options cannot be read".toList
  | noVerbatim => "verbatim_preview_chars must be greater than zero".toList
  | noEnvironment => "environment_preview_chars must be greater than zero".toList

end OptionsError

namespace Options

/-- The whole document, with limits for when a preview is asked for. -/
def standard : Options :=
  ⟨false, 80, 120⟩

/-- A preview with the standard limits. -/
def standardPreview : Options :=
  { standard with preview := true }

/-- Refuse limits that would leave nothing but dots. -/
def validate (options : Options) : Except OptionsError Unit :=
  if options.verbatimLimit = 0 then .error .noVerbatim
  else if options.environmentLimit = 0 then .error .noEnvironment
  else .ok ()

end Options

end LatexMarkdown
