import LatexMarkdown.Text.Basic

/-!
# Warnings

A conversion never fails. What it could not convert faithfully it reports as a
warning, whose cause names the key, environment or colour at fault.
-/

namespace LatexMarkdown

/-- What a warning is about. -/
inductive WarningKind where
  /-- A reference to a key without a label. -/
  | unresolvedReference
  /-- A citation of a key without a bibliography item. -/
  | unresolvedCitation
  /-- A key declared more than once; the later declaration holds. -/
  | duplicateLabel
  /-- An environment without a conversion, whose markers are dropped. -/
  | unknownEnvironment
  /-- A colour switch outside any group, which opens a span that stays open. -/
  | unclosedColorSwitch
  deriving DecidableEq, Repr

namespace WarningKind

/-- The kind in words. -/
def describe : WarningKind -> Text
  | unresolvedReference => "unresolved reference".toList
  | unresolvedCitation => "unresolved citation".toList
  | duplicateLabel => "duplicate label".toList
  | unknownEnvironment => "unknown environment".toList
  | unclosedColorSwitch => "unclosed color switch".toList

/-- The kind as a single identifier. -/
def identifier : WarningKind -> Text
  | unresolvedReference => "unresolved_reference".toList
  | unresolvedCitation => "unresolved_citation".toList
  | duplicateLabel => "duplicate_label".toList
  | unknownEnvironment => "unknown_environment".toList
  | unclosedColorSwitch => "unclosed_color_switch".toList

/-- The message about a key, environment or colour. -/
def messageFor (kind : WarningKind) (subject : Text) : Text :=
  match kind with
  | unresolvedReference => "No \\label for reference '".toList ++ subject ++ ['\'']
  | unresolvedCitation => "No \\bibitem for citation '".toList ++ subject ++ ['\'']
  | duplicateLabel =>
    "Key '".toList ++ subject ++ "' declared more than once; using the later one".toList
  | unknownEnvironment =>
    "Environment '".toList ++ subject ++ "' has no conversion; markers dropped".toList
  | unclosedColorSwitch =>
    "Bare \\color".toList ++ '{' :: subject ++ '}' ::
      " opens a span that is never closed".toList

end WarningKind

/-- How much a warning matters to the reader of the output. -/
inductive Severity where
  /-- Something in the output is visibly wrong. -/
  | warning
  /-- A stand-in was used that is usually fine. -/
  | info
  deriving DecidableEq, Repr

namespace Severity

/-- The severity in a word. -/
def describe : Severity -> Text
  | warning => "warning".toList
  | info => "info".toList

/-- The terminal sequence that switches to the colour of a severity. -/
def terminalColor : Severity -> Text
  | warning => Char.ofNat 27 :: "[33m".toList
  | info => Char.ofNat 27 :: "[36m".toList

end Severity

/-- A warning with its message, and what it is about if that is known. -/
structure Warning where
  kind : WarningKind
  message : Text
  location : Option Text
  deriving DecidableEq, Repr

namespace Warning

/-- The warning of a kind about a key, environment or colour. -/
def about (kind : WarningKind) (subject : Text) : Warning :=
  ⟨kind, kind.messageFor subject, some subject⟩

/-- How much the warning matters. -/
def severity (warning : Warning) : Severity :=
  match warning.kind with
  | .unresolvedReference | .unresolvedCitation | .duplicateLabel => .warning
  | .unknownEnvironment | .unclosedColorSwitch => .info

/-- The warning on one line. -/
def line (warning : Warning) : Text :=
  let kind := '[' :: warning.kind.describe ++ [']', ' ']
  match warning.location with
  | some location => kind ++ location ++ ": ".toList ++ warning.message
  | none => kind ++ warning.message

end Warning

end LatexMarkdown
