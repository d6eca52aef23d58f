import LatexMarkdown.Text.Basic

/-!
# Elements of the output

The output is Markdown with inline HTML. A character with a meaning in HTML is
written in a form that stands for itself; an element is written with at most a
class and a style.
-/

namespace LatexMarkdown

namespace Text

/-- The form of a character that stands for itself in HTML. -/
def escapedCharacter (c : Char) : Text :=
  if c = '&' then "&amp;".toList
  else if c = '<' then "&lt;".toList
  else if c = '>' then "&gt;".toList
  else if c = '"' then "&quot;".toList
  else [c]

/-- Write every character so that it stands for itself in HTML. -/
def escapeHtml (text : Text) : Text :=
  text.flatMap escapedCharacter

end Text

namespace Html

/-- An element without attributes around a content. -/
def element (tag : String) (content : Text) : Text :=
  '<' :: tag.toList ++ '>' :: content ++ "</".toList ++ tag.toList ++ ['>']

/-- The tag that opens an element with a style. -/
def openStyled (tag : String) (style : Text) : Text :=
  '<' :: tag.toList ++ " style=\"".toList ++ style ++ "\">".toList

/-- An element with a style around a content. -/
def styled (tag : String) (style content : Text) : Text :=
  openStyled tag style ++ content ++ "</".toList ++ tag.toList ++ ['>']

/-- One property of a style. -/
def property (name : String) (value : Text) : Text :=
  name.toList ++ ": ".toList ++ value ++ [';']

/-- A content between two paragraph breaks. -/
def paragraph (content : Text) : Text :=
  "\n\n".toList ++ content ++ "\n\n".toList

end Html

end LatexMarkdown
