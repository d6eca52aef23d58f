import LatexMarkdown.Scan.Enclosed
import LatexMarkdown.Symbol.Table
import LatexMarkdown.Text.Blank

/-!
# Symbols in running text

Accents, symbol commands, quotation marks, dashes, ties and small spaces are
replaced by the characters they print. Escaped specials such as `\%` stay as
they are, since they mean the same in the output.
-/

namespace LatexMarkdown.Symbol

/-- A letter after an optional backslash, and the text after it. -/
def readLetter (text : Text) : Option (Text × Text) :=
  match (Text.dropFront? ['\\'] text).getD text with
  | c :: rest => if c.isAlpha then some ([c], rest) else none
  | [] => none

/-- A letter after an optional backslash, alone in braces. -/
def readBracedLetter (text : Text) : Option (Text × Text) := do
  let inside <- Text.dropFront? ['{'] text
  let (letter, rest) <- readLetter (Text.trimStart inside)
  let rest <- Text.dropFront? ['}'] (Text.trimStart rest)
  some (letter, rest)

/-- An accent named by a sign, with its letter. -/
def readSignAccent (text : Text) : Option (Text × Text) := do
  let after <- Text.dropFront? ['\\'] text
  match after with
  | [] => none
  | sign :: after =>
    if "'`^\"~=.".toList.contains sign then do
      let (letter, rest) <- (readBracedLetter after <|> readLetter after)
      some (composeAccent [sign] letter, rest)
    else none

/-- An accent named by a letter, with its own letter in braces or after a
blank. -/
def readLetterAccent (text : Text) : Option (Text × Text) := do
  let after <- Text.dropFront? ['\\'] text
  match after with
  | [] => none
  | accent :: after =>
    if "cvuHkr".toList.contains accent then
      match readBracedLetter (Text.trimStart after), Text.trimStart after with
      | some (letter, rest), _ => some (composeAccent [accent] letter, rest)
      | none, c :: rest =>
        if c.isAlpha && after.head?.any Text.isBlank then some (composeAccent [accent] [c], rest)
        else none
      | none, [] => none
    else none

/-- A symbol command, with the empty group that may end it. -/
def readSymbol (text : Text) : Option (Text × Text) := do
  let after <- Text.dropFront? ['\\'] text
  let symbol <- KeyedList.find? textSymbols (after.takeWhile Char.isAlpha)
  let rest := after.dropWhile Char.isAlpha
  some (symbol, (Text.dropFront? ['{', '}'] rest).getD rest)

/-- A command that is a backslash and one of some characters. -/
def readCharacterCommand (characters replacement text : Text) : Option (Text × Text) := do
  let after <- Text.dropFront? ['\\'] text
  match after with
  | [] => none
  | c :: rest => if characters.any (· = c) then some (replacement, rest) else none

/-- What quotation marks, dashes and ties are replaced by, in order. -/
def punctuation : List (Text × Text) :=
  [("?`", "¿"), ("!`", "¡"), ("``", "“"), ("''", "”"), ("`", "‘"), ("---", "&mdash;"),
    ("--", "&ndash;"), ("~", " ")].map fun (pattern, replacement) =>
      (pattern.toList, replacement.toList)

/-- Replace all punctuation, one kind after another. -/
def replacePunctuation (text : Text) : Text :=
  punctuation.foldl (fun text (pattern, replacement) =>
    Scan.replaceAll pattern replacement text) text

/-- Replace all symbols of a text by the characters they print. -/
def normalize (text : Text) : Text :=
  let text := Scan.substitute readSignAccent text
  let text := Scan.substitute readLetterAccent text
  let text := Scan.substitute readSymbol text
  let text := replacePunctuation text
  let text := Scan.substitute (readCharacterCommand ",;: ".toList [' ']) text
  Scan.substitute (readCharacterCommand "!/@-".toList []) text

end LatexMarkdown.Symbol
