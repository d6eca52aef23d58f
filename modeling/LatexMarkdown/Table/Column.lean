import LatexMarkdown.Number.Decimal
import LatexMarkdown.Scan.Group
import LatexMarkdown.Text.Blank

/-!
# Columns of a table

A column specification lists alignments, with material between columns that is
not a column and with repetitions. A table never has more columns than a fixed
number, however often a repetition asks for them.
-/

namespace LatexMarkdown.Table

/-- How the cells of a column are aligned. -/
inductive Alignment where
  | left
  | center
  | right
  /-- The reader of the output decides. -/
  | auto
  deriving DecidableEq, Repr

namespace Alignment

/-- The alignment as a value of a style, if it is fixed. -/
def css? : Alignment -> Option Text
  | left => some "left".toList
  | center => some "center".toList
  | right => some "right".toList
  | auto => none

end Alignment

/-- The most columns of a table, and the most columns or rows of a cell. -/
def maxSpan : Nat := 256

/-- A count that is written alone, perhaps with a plus sign; whatever cannot be
read counts as one. -/
def readCount (text : Text) : Nat :=
  let text := Text.trim text
  (Count.ofDigits? ((Text.dropFront? ['+'] text).getD text)).getD 1

/-- Add columns to those built so far, a number of times. To as many as a table
has at most, none are added any more. -/
def repeatColumns (columns : List Alignment) : (count : Nat) -> (built : List Alignment) ->
    List Alignment
  | 0, built => built
  | count + 1, built =>
    if maxSpan ≤ built.length then built
    else repeatColumns columns count (built ++ columns)

/-- Add a repetition to the columns built so far. -/
def addRepetition (count : Nat) (columns built : List Alignment) : List Alignment :=
  if columns.isEmpty then built else repeatColumns columns (min count maxSpan) built

/-- The text after a braced group that may follow a gap. -/
def skipBraced (text : Text) : Option Text :=
  (Scan.readBraced (Text.skipGap text)).map Prod.snd

/-- Add the columns that one character of a specification stands for to those
built so far; the text after it and its arguments is the second part. -/
def readColumn (nested : Text -> List Alignment) (built : List Alignment) (c : Char)
    (rest : Text) : List Alignment × Text :=
  if c = 'l' then (built ++ [.left], rest)
  else if c = 'c' then (built ++ [.center], rest)
  else if c = 'r' then (built ++ [.right], rest)
  else if c = 'X' || c = 'S' then (built ++ [.auto], rest)
  else if c = 'p' || c = 'm' || c = 'b' then (built ++ [.left], (skipBraced rest).getD rest)
  else if c = '@' || c = '!' || c = '>' || c = '<' then (built, (skipBraced rest).getD rest)
  else if c = '*' then
    match Scan.readBraced (Text.skipGap rest) with
    | none => (built, rest)
    | some (count, afterCount) =>
      match Scan.readBraced (Text.skipGap afterCount) with
      | none => (built, rest)
      | some (inner, after) => (addRepetition (readCount count) (nested inner) built, after)
  else (built, rest)

/-- Add all columns of a specification to those built so far, passing over the
next `covered` characters, which belong to a column that was read. -/
def columnsFrom (nested : Text -> List Alignment) :
    (covered : Nat) -> (built : List Alignment) -> Text -> List Alignment
  | _, built, [] => built
  | covered + 1, built, _ :: rest => columnsFrom nested covered built rest
  | 0, built, c :: rest =>
    let (built, after) := readColumn nested built c rest
    columnsFrom nested (rest.length - after.length) built rest

/-- The columns of a specification down to a nesting depth of repetitions. -/
def columnsAt : (depth : Nat) -> Text -> List Alignment
  | 0, _ => []
  | depth + 1, text => (columnsFrom (columnsAt depth) 0 [] text).take maxSpan

/-- The columns of a specification. What is repeated is shorter than the whole,
so the length of the text bounds the nesting. -/
def columns (specification : Text) : List Alignment :=
  columnsAt specification.length specification

end LatexMarkdown.Table
