import LatexMarkdown.Scan.Edit
import LatexMarkdown.Text.Classes

/-!
# Placeholder tokens

A finished fragment is represented in the document by a token that carries its
index. A source text that happens to spell the start of a token is broken up
before anything is stored, so that every token in a document was put there.
-/

namespace LatexMarkdown.Fragment

/-- How every token starts. -/
def tokenOpening : Text :=
  "@@BLOCK".toList

/-- How every token ends. -/
def tokenClosing : Text :=
  "@@".toList

/-- The token of the fragment with an index. -/
def token (index : Nat) : Text :=
  tokenOpening ++ Text.ofNat index ++ tokenClosing

/-- The digits of the token at the start of the text, and the text after it.
Decimal digits of every script are taken. -/
def readToken (text : Text) : Option (Text × Text) := do
  let after <- Text.dropFront? tokenOpening text
  let digits := after.takeWhile Text.isDecimal
  let rest <- Text.dropFront? tokenClosing (after.dropWhile Text.isDecimal)
  if digits.isEmpty then none else some (digits, rest)

/-- The number that digits spell; digits outside ASCII spell none. -/
def tokenIndex? (digits : Text) : Option Nat :=
  if digits.all Char.isDigit then some (Text.digitsValue digits) else none

/-- The indices of the tokens in a text, from left to right, passing over the
next `covered` characters. A token that spells no number has no index. -/
def tokensFrom : (covered : Nat) -> Text -> List (Option Nat)
  | _, [] => []
  | covered + 1, _ :: rest => tokensFrom covered rest
  | 0, c :: rest =>
    match readToken (c :: rest) with
    | some (digits, after) =>
      tokenIndex? digits :: tokensFrom ((c :: rest).length - after.length - 1) rest
    | none => tokensFrom 0 rest

/-- The indices of the tokens in a text. -/
def tokens (text : Text) : List (Option Nat) :=
  tokensFrom 0 text

/-- A word joiner, which keeps a broken-up token invisible. -/
def wordJoiner : Char :=
  Char.ofNat 0x2060

/-- Break up every text that starts like a token. -/
def neutralize (text : Text) : Text :=
  Scan.replaceAll tokenOpening ("@@".toList ++ wordJoiner :: "BLOCK".toList) text

end LatexMarkdown.Fragment
