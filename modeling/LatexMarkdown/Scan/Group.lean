import LatexMarkdown.Scan.Cursor

/-!
# Braced and bracketed groups

A braced group closes at the brace that balances its opening one; escaped braces
do not count. A bracketed group closes at the bracket that balances its opening
one outside all braces, and does not reach over a blank line outside braces.
-/

namespace LatexMarkdown.Scan

/-- Put a character in front of what was read inside a group. -/
def keepFirst (c : Char) : Option (Text × Text) -> Option (Text × Text)
  | some (inner, rest) => some (c :: inner, rest)
  | none => none

/-- Read on inside a braced group, `depth` groups deeper than its own level: the
inside up to the closing brace, and the text after that brace. -/
def readBracedRest : (depth : Nat) -> (escaped : Bool) -> Text -> Option (Text × Text)
  | _, _, [] => none
  | depth, true, c :: rest => keepFirst c (readBracedRest depth false rest)
  | depth, false, c :: rest =>
    if c = '\\' then keepFirst c (readBracedRest depth true rest)
    else if c = '{' then keepFirst c (readBracedRest (depth + 1) false rest)
    else if c = '}' then
      match depth with
      | 0 => some ([], rest)
      | outer + 1 => keepFirst c (readBracedRest outer false rest)
    else keepFirst c (readBracedRest depth false rest)

/-- The inside of the braced group at the start of the text, and the text after
the group. -/
def readBraced : Text -> Option (Text × Text)
  | c :: rest => if c = '{' then readBracedRest 0 false rest else none
  | [] => none

/-- Read on inside a bracketed group with `braces` open braces and `brackets`
further open brackets. An unmatched closing brace is passed over. -/
def readBracketedRest : (braces brackets : Nat) -> (escaped : Bool) -> Text ->
    Option (Text × Text)
  | _, _, _, [] => none
  | braces, brackets, true, c :: rest =>
    keepFirst c (readBracketedRest braces brackets false rest)
  | braces, brackets, false, c :: rest =>
    if c = '\\' then keepFirst c (readBracketedRest braces brackets true rest)
    else if c = '{' then keepFirst c (readBracketedRest (braces + 1) brackets false rest)
    else if c = '}' then keepFirst c (readBracketedRest (braces - 1) brackets false rest)
    else if c = '[' && braces = 0 then
      keepFirst c (readBracketedRest braces (brackets + 1) false rest)
    else if c = ']' && braces = 0 then
      match brackets with
      | 0 => some ([], rest)
      | outer + 1 => keepFirst c (readBracketedRest braces outer false rest)
    else if c = '\n' && braces = 0 && Text.startsBlankLine rest then none
    else keepFirst c (readBracketedRest braces brackets false rest)

/-- The inside of the bracketed group at the start of the text, and the text
after the group. -/
def readBracketed : Text -> Option (Text × Text)
  | c :: rest => if c = '[' then readBracketedRest 0 0 false rest else none
  | [] => none

/-- Read a group at an offset: its inside and the offset just past it. -/
def readAt (read : Text -> Option (Text × Text)) (text : Text) (offset : Nat) :
    Option (Text × Nat) := do
  let suffix <- Text.suffixAt? text offset
  let (inner, rest) <- read suffix
  some (inner, offset + (Text.utf8Length suffix - Text.utf8Length rest))

end LatexMarkdown.Scan
