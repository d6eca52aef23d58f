import LatexMarkdown.Text.Basic

/-!
# Blank characters

The White_Space property of Unicode decides what is trimmed, what separates
words and what counts as a blank line.
-/

namespace LatexMarkdown.Text

/-- A character with the White_Space property. -/
def isBlank (c : Char) : Bool :=
  (9 ≤ c.toNat && c.toNat ≤ 13) || c = ' ' || c.toNat = 0x85 || c.toNat = 0xa0 ||
    c.toNat = 0x1680 || (0x2000 ≤ c.toNat && c.toNat ≤ 0x200a) || c.toNat = 0x2028 ||
    c.toNat = 0x2029 || c.toNat = 0x202f || c.toNat = 0x205f || c.toNat = 0x3000

/-- Drop the blanks at the start. -/
def trimStart (text : Text) : Text :=
  text.dropWhile isBlank

/-- Drop the blanks at the end. -/
def trimEnd (text : Text) : Text :=
  dropTrailing isBlank text

/-- Drop the blanks at both ends. -/
def trim (text : Text) : Text :=
  trimEnd (trimStart text)

/-- Whether nothing but blanks is in the text. -/
def isBlankText (text : Text) : Bool :=
  text.all isBlank

/-- The maximal runs without a blank, in order. -/
def words : Text -> List Text
  | [] => []
  | c :: rest =>
    if isBlank c then words rest
    else match rest, words rest with
      | [], others => [c] :: others
      | next :: _, others =>
        if isBlank next then [c] :: others
        else match others with
          | [] => [[c]]
          | word :: later => (c :: word) :: later

/-- Put single spaces for all runs of blanks, and none at the ends. -/
def collapseBlanks (text : Text) : Text :=
  joinWith [' '] (words text)

end LatexMarkdown.Text
