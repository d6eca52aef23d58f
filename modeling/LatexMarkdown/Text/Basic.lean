/-!
# Text as characters

A document is held as its list of characters, so that every pass is a recursion
on data and a position is the suffix that remains to be read. Offsets, where an
answer shows them, count the bytes of the UTF-8 form.
-/

namespace LatexMarkdown

/-- A document, or any piece of one. -/
abbrev Text := List Char

namespace Text

-- What is asked of all characters of a text is decided by going through the text, and
-- not through all characters there are.
instance (priority := high) decidableForallMem (condition : Char -> Prop)
    [DecidablePred condition] (text : Text) : Decidable (∀ c ∈ text, condition c) :=
  List.decidableBAll condition text

instance (priority := high) decidableExistsMem (condition : Char -> Prop)
    [DecidablePred condition] (text : Text) : Decidable (∃ c ∈ text, condition c) :=
  List.decidableBEx condition text

/-- The number of bytes of the UTF-8 form. -/
def utf8Length : Text -> Nat
  | [] => 0
  | c :: rest => c.utf8Size + utf8Length rest

/-- The suffix that starts `offset` bytes into the text. There is none past the
end, and none inside a character. -/
def suffixAt? : Text -> (offset : Nat) -> Option Text
  | text, 0 => some text
  | [], _ + 1 => none
  | c :: rest, offset + 1 =>
    if offset + 1 < c.utf8Size then none else suffixAt? rest (offset + 1 - c.utf8Size)

/-- What follows `front`, when the text starts with it. -/
def dropFront? : (front : Text) -> Text -> Option Text
  | [], text => some text
  | _ :: _, [] => none
  | expected :: front, c :: rest => if expected = c then dropFront? front rest else none

/-- Whether the text starts with `front`. -/
def startsWith (front text : Text) : Bool :=
  (dropFront? front text).isSome

/-- Whether the text ends with `back`. -/
def endsWith (back text : Text) : Bool :=
  startsWith back.reverse text.reverse

/-- The text before the first occurrence of `pattern`, and the text after it. -/
def splitFirst? (pattern : Text) : Text -> Option (Text × Text)
  | [] => if pattern.isEmpty then some ([], []) else none
  | c :: rest =>
    match dropFront? pattern (c :: rest) with
    | some after => some ([], after)
    | none => (splitFirst? pattern rest).map fun (before, after) => (c :: before, after)

/-- Whether `pattern` occurs anywhere in the text. -/
def contains (pattern : Text) : Text -> Bool
  | [] => pattern.isEmpty
  | c :: rest => startsWith pattern (c :: rest) || contains pattern rest

/-- Put a character in front of the first piece. -/
def keepInFirst (c : Char) : List Text -> List Text
  | [] => [[c]]
  | first :: others => (c :: first) :: others

/-- The pieces between the occurrences of a separator; there is always one more
piece than there are separators. -/
def splitOn (separator : Char) : Text -> List Text
  | [] => [[]]
  | c :: rest =>
    if c = separator then [] :: splitOn separator rest
    else keepInFirst c (splitOn separator rest)

/-- The pieces between the separators that a reader finds; it gives the text
after a separator. The next `covered` characters belong to a separator. -/
def splitWhereFrom (afterSeparator? : Text -> Option Text) : (covered : Nat) -> Text -> List Text
  | _, [] => [[]]
  | covered + 1, _ :: rest => splitWhereFrom afterSeparator? covered rest
  | 0, c :: rest =>
    match afterSeparator? (c :: rest) with
    | some after =>
      [] :: splitWhereFrom afterSeparator? (rest.length - after.length) rest
    | none => keepInFirst c (splitWhereFrom afterSeparator? 0 rest)

/-- The pieces of a whole text between the separators that a reader finds, from
left to right. -/
def splitWhere (afterSeparator? : Text -> Option Text) (text : Text) : List Text :=
  splitWhereFrom afterSeparator? 0 text

/-- Put a separator between the pieces. -/
def joinWith (separator : Text) : List Text -> Text
  | [] => []
  | [piece] => piece
  | piece :: next :: others => piece ++ separator ++ joinWith separator (next :: others)

/-- The lines of a text, each with the line break that ends it. -/
def linesWithBreaks : Text -> List Text
  | [] => []
  | c :: rest =>
    if c = '\n' then [c] :: linesWithBreaks rest
    else keepInFirst c (linesWithBreaks rest)

/-- A line without the break that ends it; a carriage return just before the
break belongs to it. -/
def withoutBreak (line : Text) : Text :=
  if line.getLast? = some '\n' then
    if line.dropLast.getLast? = some '\r' then line.dropLast.dropLast else line.dropLast
  else line

/-- The lines of a text, each without its line break. A last line break opens no
further line. -/
def lines (text : Text) : List Text :=
  (linesWithBreaks text).map withoutBreak

/-- Drop the longest run at the end whose characters all satisfy a condition. -/
def dropTrailing (condition : Char -> Bool) (text : Text) : Text :=
  text.foldr (fun c kept => if kept.isEmpty && condition c then [] else c :: kept) []

/-- A space or a tab. -/
def isSpaceOrTab (c : Char) : Bool :=
  c = ' ' || c = '\t'

/-- A character that may stand between a command and its arguments. -/
def isGap (c : Char) : Bool :=
  c = ' ' || c = '\t' || c = '\n' || c = '\r'

/-- Skip what may stand between a command and its arguments. -/
def skipGap (text : Text) : Text :=
  text.dropWhile isGap

/-- Whether, just after a line break, the line that begins is blank and ends in
another line break. -/
def startsBlankLine (text : Text) : Bool :=
  (text.dropWhile isSpaceOrTab).head? = some '\n'

/-- Whether the text starts with an unaccented letter. -/
def startsWithLetter (text : Text) : Bool :=
  match text with
  | [] => false
  | c :: _ => c.isAlpha

/-- The decimal digits of a number, as text. -/
def ofNat (number : Nat) : Text :=
  Nat.toDigits 10 number

/-- The number that decimal digits spell. -/
def digitsValue (digits : Text) : Nat :=
  digits.foldl (fun value c => value * 10 + (c.toNat - '0'.toNat)) 0

/-- The value of a hexadecimal digit. -/
def hexValue? (c : Char) : Option Nat :=
  if c.isDigit then some (c.toNat - '0'.toNat)
  else if 'a' ≤ c && c ≤ 'f' then some (c.toNat - 'a'.toNat + 10)
  else if 'A' ≤ c && c ≤ 'F' then some (c.toNat - 'A'.toNat + 10)
  else none

/-- A hexadecimal digit. -/
def isHexDigit (c : Char) : Bool :=
  (hexValue? c).isSome

/-- A number below 256 as two hexadecimal digits. -/
def hexByte (byte : Nat) : Text :=
  [Nat.digitChar (byte / 16), Nat.digitChar (byte % 16)]

/-- The same character a number of times. -/
def repeated (count : Nat) (c : Char) : Text :=
  List.replicate count c

end Text

end LatexMarkdown
