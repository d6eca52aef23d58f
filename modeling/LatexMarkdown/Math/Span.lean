import LatexMarkdown.Scan.Cursor
import LatexMarkdown.Scan.Enclosed

/-!
# Being inside a formula

Whether a position lies inside a formula is decided from the delimiters before
it: dollars toggle, bracket delimiters open and close, and environments nest.
-/

namespace LatexMarkdown.Math

/-- The formulas that are open at a position. -/
structure OpenSpans where
  inline : Bool
  display : Bool
  bracket : Bool
  parenthesis : Bool
  environments : Nat
  deriving DecidableEq, Repr

namespace OpenSpans

/-- No formula is open. -/
def none : OpenSpans :=
  ⟨false, false, false, false, 0⟩

/-- Whether any formula is open. -/
def any (spans : OpenSpans) : Bool :=
  spans.inline || spans.display || spans.bracket || spans.parenthesis || spans.environments ≠ 0

end OpenSpans

/-- The environments that hold formulas, each also with a star. -/
def spanNames : List Text :=
  ["equation", "align", "flalign", "alignat", "gather", "multline", "eqnarray", "subeqnarray",
    "displaymath", "math"].map String.toList

/-- Whether a text starts with the name of such an environment and its closing
brace. -/
def startsWithSpanName (text : Text) : Bool :=
  spanNames.any fun name =>
    Text.startsWith (name ++ ['}']) text || Text.startsWith (name ++ ['*', '}']) text

/-- The open formulas after a backslash that is followed by this text. -/
def OpenSpans.afterBackslash (spans : OpenSpans) (text : Text) : OpenSpans :=
  match text with
  | '[' :: _ => { spans with bracket := true }
  | ']' :: _ => { spans with bracket := false }
  | '(' :: _ => { spans with parenthesis := true }
  | ')' :: _ => { spans with parenthesis := false }
  | _ =>
    match Text.dropFront? ("begin".toList ++ ['{']) text,
        Text.dropFront? ("end".toList ++ ['{']) text with
    | some name, _ =>
      if startsWithSpanName name then { spans with environments := spans.environments + 1 }
      else spans
    | _, some name =>
      if startsWithSpanName name then { spans with environments := spans.environments - 1 }
      else spans
    | _, _ => spans

/-- The formulas that are open at the end of a text. A character that is escaped
or belongs to a double dollar is passed over. -/
def openSpansFrom : OpenSpans -> (passed : Bool) -> Text -> OpenSpans
  | spans, _, [] => spans
  | spans, true, _ :: rest => openSpansFrom spans false rest
  | spans, false, c :: rest =>
    if c = '\\' then openSpansFrom (spans.afterBackslash rest) true rest
    else if c = '$' then
      if rest.head? = some '$' then
        openSpansFrom { spans with display := !spans.display } true rest
      else openSpansFrom { spans with inline := !spans.inline } false rest
    else openSpansFrom spans false rest

/-- Whether the end of a text lies inside a formula. -/
def isInside (before : Text) : Bool :=
  (openSpansFrom .none false before).any

end LatexMarkdown.Math
