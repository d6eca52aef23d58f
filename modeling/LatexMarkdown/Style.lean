import LatexMarkdown.Html
import LatexMarkdown.KeyedList
import LatexMarkdown.Text.Blank

/-!
# Text styles

A style wraps a text in Markdown or HTML. Commands put their argument into a
style, and declarations the rest of their group. A blank text has no style.
-/

namespace LatexMarkdown

/-- The styles that commands and declarations ask for. -/
inductive Style where
  | bold
  | italic
  | underline
  | monospace
  | sansSerif
  | smallCaps
  | strike
  | superscript
  | subscript
  | plain
  deriving DecidableEq, Repr

namespace Style

/-- A trimmed text in a style; nothing of a blank text is left. -/
def wrap (style : Style) (text : Text) : Text :=
  let text := Text.trim text
  if text.isEmpty then []
  else match style with
    | bold => "**".toList ++ text ++ "**".toList
    | italic => '*' :: text ++ ['*']
    | underline => Html.element "u" text
    | monospace => Html.element "code" text
    | sansSerif => Html.styled "span" (Html.property "font-family" "sans-serif".toList) text
    | smallCaps => Html.styled "span" (Html.property "font-variant" "small-caps".toList) text
    | strike => Html.element "del" text
    | superscript => Html.element "sup" text
    | subscript => Html.element "sub" text
    | plain => text

/-- The same where Markdown is not read, as in the cells of a table. -/
def wrapHtml (style : Style) (text : Text) : Text :=
  let trimmed := Text.trim text
  if trimmed.isEmpty then []
  else match style with
    | bold => Html.element "strong" trimmed
    | italic => Html.element "em" trimmed
    | other => other.wrap text

/-- The commands that put their argument into a style, in the order in which
they are looked for. -/
def commands : KeyedList Style :=
  [("textmd", plain), ("textnormal", plain), ("textsc", smallCaps), ("textrm", plain),
    ("sout", strike), ("emph", italic), ("textsf", sansSerif), ("textbf", bold),
    ("underline", underline), ("uline", underline), ("textit", italic),
    ("texttt", monospace), ("textsubscript", subscript), ("textsl", italic), ("st", strike),
    ("textsuperscript", superscript), ("textup", plain)].map
      fun (name, style) => (name.toList, style)

/-- The declarations that put the rest of their group into a style. -/
def declarations : KeyedList Style :=
  [("bf", bold), ("bfseries", bold), ("it", italic), ("itshape", italic), ("em", italic),
    ("sl", italic), ("slshape", italic), ("tt", monospace), ("ttfamily", monospace),
    ("sf", sansSerif), ("sffamily", sansSerif), ("sc", smallCaps), ("scshape", smallCaps),
    ("rm", plain), ("rmfamily", plain), ("upshape", plain), ("normalfont", plain),
    ("mdseries", plain)].map fun (name, style) => (name.toList, style)

/-- The declarations that change the size of the text, with the size in points. -/
def sizes : KeyedList Nat :=
  [("tiny", 8), ("scriptsize", 9), ("footnotesize", 10), ("small", 11), ("normalsize", 12),
    ("large", 14), ("Large", 16), ("LARGE", 18), ("huge", 20), ("Huge", 24)].map
      fun (name, points) => (name.toList, points)

end Style

end LatexMarkdown
