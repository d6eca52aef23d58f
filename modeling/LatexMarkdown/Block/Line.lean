import LatexMarkdown.Numbering.Reference
import LatexMarkdown.Scan.Environment
import LatexMarkdown.Scan.Enclosed

/-!
# Bibliography items and text in lines

Bibliography items are written with their numbers. In verse and in tabbed text
the breaks between lines are kept.
-/

namespace LatexMarkdown.Block

/-- Write the bibliography items with their numbers. -/
def convertItems (citations : CitationRegistry) (text : Text) : Text :=
  let text := Scan.replaceCommand "bibitem".toList ⟨true, 1, 1⟩ (fun arguments =>
    let number := match citations.find? (Text.trim (arguments.argument 0)) with
      | some number => Text.ofNat number
      | none => Numbering.unknownItem
    some ("\n\n[".toList ++ number ++ "] ".toList)) text
  Scan.replaceControlWord "newblock".toList [] text

/-- The text after a line break command with its star and its option. -/
def afterLineBreak? (text : Text) : Option Text := do
  let after <- Text.dropFront? "\\\\".toList text
  some (Scan.skipLineOption ((Text.dropFront? ['*'] after).getD after))

/-- Replace all line break commands. -/
def replaceLineBreaks (replacement text : Text) : Text :=
  Scan.substitute (fun suffix =>
    (afterLineBreak? suffix).map fun rest => (replacement, rest)) text

/-- A command that sets or changes a tab stop. -/
def readTabStop (text : Text) : Option (Text × Text) := do
  match <- Text.dropFront? ['\\'] text with
  | [] => none
  | c :: rest => if "=<+-".toList.contains c then some ([], rest) else none

/-- Tabbed text. Lines that only set tab stops are dropped. -/
def convertTabbed (body : Text) : Text :=
  let lines := (Text.lines body).filter fun line => !Text.contains "\\kill".toList line
  let text := replaceLineBreaks "<br>".toList (Text.joinWith ['\n'] lines)
  let text := Scan.replaceAll "\\>".toList "&emsp;".toList text
  Scan.substitute readTabStop text

/-- An environment with another body. -/
def withBody (name body : Text) : Text :=
  Scan.beginMarker name ++ body ++ Scan.endMarker name

/-- Keep the lines of verse and of tabbed text; the environments themselves stay
for later. -/
def convertLines (text : Text) : Text :=
  let tabbing := "tabbing".toList
  let verse := "verse".toList
  let text := Scan.replaceEnvironment tabbing 0 0 (fun environment =>
    some (withBody tabbing (convertTabbed environment.body))) text
  Scan.replaceEnvironment verse 0 0 (fun environment =>
    some (withBody verse (replaceLineBreaks "<br>".toList environment.body))) text

end LatexMarkdown.Block
