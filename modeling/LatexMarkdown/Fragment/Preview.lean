import LatexMarkdown.Fragment.Token
import LatexMarkdown.Text.Blank

/-!
# Short previews of a text

A preview has all runs of blanks collapsed and is cut to a number of characters.
The cut never falls inside a placeholder token: it moves to the start of one.
-/

namespace LatexMarkdown.Fragment

/-- The first `limit` characters, or fewer where a token would be cut. The next
`covered` characters belong to a token that fits. -/
def takeTokens : (limit covered : Nat) -> Text -> Text
  | _, _, [] => []
  | 0, _, _ => []
  | limit + 1, covered + 1, c :: rest => c :: takeTokens limit covered rest
  | limit + 1, 0, c :: rest =>
    match readToken (c :: rest) with
    | some (_, after) =>
      let width := (c :: rest).length - after.length
      if limit + 1 < width then [] else c :: takeTokens limit (width - 1) rest
    | none => c :: takeTokens limit 0 rest

/-- A text with its blanks collapsed, cut to a number of characters; dots show
that something was cut off. -/
def preview (limit : Nat) (text : Text) : Text :=
  let collapsed := Text.collapseBlanks text
  if collapsed.length ≤ limit then collapsed
  else Text.trimEnd (takeTokens limit 0 collapsed) ++ "...".toList

end LatexMarkdown.Fragment
