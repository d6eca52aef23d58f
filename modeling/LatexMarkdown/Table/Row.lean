import LatexMarkdown.Color
import LatexMarkdown.Scan.Command
import LatexMarkdown.Scan.Enclosed
import LatexMarkdown.Text.Word

/-!
# Rows and cells of a table

Rows end at a row break, and cells at a column separator, outside braces and
nested environments. Rules are dropped, and so are the parts of a long table
that only matter for page breaks.
-/

namespace LatexMarkdown.Table

/-- How deep a position lies in braces and in environments. -/
structure Depth where
  braces : Nat
  environments : Nat
  deriving DecidableEq, Repr

namespace Depth

/-- Outside everything. -/
def top : Depth :=
  ⟨0, 0⟩

/-- Whether a position lies outside everything. -/
def isTop (depth : Depth) : Bool :=
  depth.braces = 0 && depth.environments = 0

/-- The depth after a brace; other characters do not change it. -/
def afterBrace (depth : Depth) (c : Char) : Depth :=
  if c = '{' then { depth with braces := depth.braces + 1 }
  else if c = '}' then { depth with braces := depth.braces - 1 }
  else depth

/-- The depth after a backslash, given the text that the backslash starts. -/
def afterCommand (depth : Depth) (text : Text) : Depth :=
  if Text.startsWith ("\\begin".toList ++ ['{']) text then
    { depth with environments := depth.environments + 1 }
  else if Text.startsWith ("\\end".toList ++ ['{']) text then
    { depth with environments := depth.environments - 1 }
  else depth

end Depth

/-- The text after the row break at the start of the text. A row break takes a
star and an option with it. -/
def afterRowBreak? (text : Text) : Option Text :=
  match Text.dropFront? "\\\\".toList text with
  | some after =>
    let after := (Text.dropFront? ['*'] after).getD after
    match Scan.readBracketed (Text.skipGap after) with
    | some (_, rest) => some rest
    | none => some after
  | none => Text.dropFront? "\\tabularnewline".toList text

/-- The rows from a position on. The next `covered` characters belong to a row
break. -/
def rowsFrom : Depth -> (escaped : Bool) -> (covered : Nat) -> Text -> List Text
  | _, _, _, [] => [[]]
  | depth, escaped, covered + 1, _ :: rest => rowsFrom depth escaped covered rest
  | depth, true, 0, c :: rest => Text.keepInFirst c (rowsFrom depth false 0 rest)
  | depth, false, 0, c :: rest =>
    if c = '\\' then
      match if depth.isTop then afterRowBreak? (c :: rest) else none with
      | some after => [] :: rowsFrom depth false (rest.length - after.length) rest
      | none => Text.keepInFirst c (rowsFrom (depth.afterCommand (c :: rest)) true 0 rest)
    else Text.keepInFirst c (rowsFrom (depth.afterBrace c) false 0 rest)

/-- The rows of the body of a table. -/
def splitRows (body : Text) : List Text :=
  rowsFrom .top false 0 body

/-- The cells from a position on. -/
def cellsFrom : Depth -> (escaped : Bool) -> Text -> List Text
  | _, _, [] => [[]]
  | depth, true, c :: rest => Text.keepInFirst c (cellsFrom depth false rest)
  | depth, false, c :: rest =>
    if c = '\\' then Text.keepInFirst c (cellsFrom (depth.afterCommand (c :: rest)) true rest)
    else if c = '&' && depth.isTop then [] :: cellsFrom depth false rest
    else Text.keepInFirst c (cellsFrom (depth.afterBrace c) false rest)

/-- The cells of a row. -/
def splitCells (row : Text) : List Text :=
  cellsFrom .top false row

/-- The rules without arguments. -/
def plainRules : List Text :=
  ["hline", "toprule", "midrule", "bottomrule", "hdashline"].map String.toList

/-- The text after the braced argument of a rule over some columns. -/
def afterRuleColumns? (text : Text) : Option Text :=
  (Scan.readEnclosed '{' '}' (Text.trimStart text)).map Prod.snd

/-- The text after the rule at the start of the text. -/
def afterRule? (text : Text) : Option Text := do
  let name <- Text.dropFront? ['\\'] text
  Scan.afterOneOf? plainRules name
    <|> (do afterRuleColumns? (<- Text.dropFront? "cline".toList name))
    <|> (do
      let after <- Text.dropFront? "cmidrule".toList name
      afterRuleColumns? (Scan.skipEnclosed '(' ')' after))
    <|> (Text.dropFront? "addlinespace".toList name).map (Scan.skipEnclosed '[' ']')

/-- A row without its rules. -/
def stripRules (row : Text) : Text :=
  Scan.substitute (fun suffix => (afterRule? suffix).map fun rest => ([], rest)) row

/-- A row without its colour commands, and the colour that the last of them
gives it. -/
def takeRowColor (colors : ColorTable) (row : Text) : Option Text × Text :=
  Scan.editCommand "rowcolor".toList ⟨true, 1, 1⟩ (fun _ arguments =>
    (some (colors.resolveInModel (arguments.option? 0) (arguments.argument 0)), some []))
    none row

/-- The text after a mark between the headers, the footers and the body of a
long table. -/
def afterHeaderMark? (text : Text) : Option Text := do
  let name <- Text.dropFront? ['\\'] text
  let rest <- Scan.afterOneOf?
    (["endfirsthead", "endhead", "endfoot", "endlastfoot"].map String.toList) name
  if Text.endsWord rest then some rest else none

/-- The text before the first header mark, if there is one. -/
def beforeHeaderMark? : Text -> Option Text
  | [] => none
  | c :: rest =>
    if (afterHeaderMark? (c :: rest)).isSome then some []
    else (beforeHeaderMark? rest).map (c :: ·)

/-- The text after the last header mark, if there is one. -/
def afterLastHeaderMark? : Text -> Option Text
  | [] => none
  | c :: rest => afterLastHeaderMark? rest <|> afterHeaderMark? (c :: rest)

/-- The first header and the body of a long table; of other tables everything. -/
def dropRepeatedHeaders (body : Text) : Text :=
  match beforeHeaderMark? body, afterLastHeaderMark? body with
  | some before, some after => before ++ "\\\\".toList ++ after
  | _, _ => body

end LatexMarkdown.Table
