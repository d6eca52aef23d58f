import LatexMarkdown.Color
import LatexMarkdown.Numbering.Scan
import LatexMarkdown.Scan.Command
import LatexMarkdown.Text.Word

/-!
# Formulas as they are written out

The body of a formula is passed on almost unchanged: labels are dropped, and
colours are given by value, since their names mean nothing further on.
-/

namespace LatexMarkdown.Math

/-- A command with its braced arguments. -/
def command (name : String) (arguments : List Text) : Text :=
  '\\' :: name.toList ++ arguments.flatMap fun argument => '{' :: argument ++ ['}']

/-- Write the colour of a colour command by value. -/
def resolveColor (colors : ColorTable) (name : String) (required : Nat) (text : Text) : Text :=
  Scan.replaceCommand name.toList ⟨true, 1, required⟩ (fun arguments =>
    some (command name
      (colors.resolveInModel (arguments.option? 0) (arguments.argument 0) ::
        arguments.required.tail))) text

/-- A formula without labels, and with all colours by value. -/
def clean (colors : ColorTable) (body : Text) : Text :=
  let text := Numbering.dropLabels body
  let text := resolveColor colors "textcolor" 2 text
  let text := resolveColor colors "colorbox" 2 text
  Text.trim (resolveColor colors "color" 1 text)

/-- A number suppression at the start of the text: nothing is written for it. -/
def readNoNumber (text : Text) : Option (Text × Text) := do
  let rest <- Scan.afterOneOf? ["\\nonumber".toList, "\\notag".toList] text
  if Text.endsWord rest then some ([], rest) else none

/-- The end of a row of a formula. -/
def rowBreak : Text :=
  "\\\\".toList

/-- Drop the column separator after `kept` further ones that stand outside
braces and are not escaped. -/
def dropSeparator : (kept depth : Nat) -> (escaped : Bool) -> Text -> Text
  | _, _, _, [] => []
  | kept, depth, true, c :: rest => c :: dropSeparator kept depth false rest
  | kept, depth, false, c :: rest =>
    if c = '\\' then c :: dropSeparator kept depth true rest
    else if c = '{' then c :: dropSeparator kept (depth + 1) false rest
    else if c = '}' then c :: dropSeparator kept (depth - 1) false rest
    else if c = '&' && depth = 0 then
      match kept with
      | 0 => rest
      | fewer + 1 => c :: dropSeparator fewer depth false rest
    else c :: dropSeparator kept depth false rest

/-- Turn rows of three columns into rows of two, by dropping the second column
separator of each row. -/
def collapseColumns (body : Text) : Text :=
  Text.joinWith rowBreak
    ((Text.splitWhere (Text.dropFront? rowBreak) body).map (dropSeparator 1 0 false))

end LatexMarkdown.Math
