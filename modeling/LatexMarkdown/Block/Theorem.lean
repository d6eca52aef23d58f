import LatexMarkdown.Color
import LatexMarkdown.Fragment.Preview
import LatexMarkdown.Fragment.Store
import LatexMarkdown.Html
import LatexMarkdown.Options.Basic
import LatexMarkdown.Scan.Enclosed

/-!
# Theorem-like environments

Theorems, definitions, proofs and the like become elements with a coloured
border, a heading in bold and, for most of them, a body in italics. Lines that
have a structure of their own keep it inside an italic body.
-/

namespace LatexMarkdown.Block

/-- A theorem-like environment: the name its element carries, the word that
heads it, the colour of its border, and whether its body is set in italics. -/
structure Theorem where
  name : Text
  label : Text
  color : Text
  italic : Bool
  deriving DecidableEq, Repr

/-- How a theorem-like environment looks, with its colour by name. -/
structure TheoremStyle where
  label : String
  color : String
  italic : Bool
  deriving DecidableEq, Repr

/-- The environments that need no definition. -/
def theoremStyles : KeyedList TheoremStyle :=
  [("theorem", ⟨"Teorema", "blue", true⟩), ("lemma", ⟨"Lema", "blue", true⟩),
    ("corollary", ⟨"Corolario", "blue", true⟩), ("proposition", ⟨"Proposición", "blue", true⟩),
    ("conjecture", ⟨"Conjetura", "blue", true⟩), ("definition", ⟨"Definición", "green", false⟩),
    ("example", ⟨"Ejemplo", "green", false⟩), ("remark", ⟨"Observación", "gray", false⟩),
    ("note", ⟨"Nota", "gray", false⟩), ("exercise", ⟨"Ejercicio", "red", false⟩),
    ("problem", ⟨"Problema", "red", false⟩), ("solution", ⟨"Solución", "green", false⟩),
    ("proof", ⟨"Demostración", "gray", false⟩), ("abstract", ⟨"Resumen", "gray", false⟩),
    ("quote", ⟨"", "gray", false⟩), ("quotation", ⟨"", "gray", false⟩),
    ("verse", ⟨"", "gray", false⟩), ("tabbing", ⟨"", "gray", false⟩),
    ("thebibliography", ⟨"Referencias", "gray", false⟩)].map
      fun (name, style) => (name.toList, style)

/-- Short names of environments. -/
def theoremAliases : KeyedList Text :=
  [("thm", "theorem"), ("lem", "lemma"), ("cor", "corollary"), ("prop", "proposition"),
    ("defn", "definition"), ("dfn", "definition"), ("ex", "example"), ("rem", "remark")].map
      fun (short, name) => (short.toList, name.toList)

/-- The value of a colour of the palette. -/
def paletteColor (name : String) : Text :=
  (KeyedList.find? Color.palette name.toList).getD "#757575".toList

/-- The environment of a name, with or without stars. Built-in names and short
names come before those that the document defines. -/
def findTheorem? (defined : KeyedList Text) (name : Text) : Option Theorem :=
  let base := Text.dropTrailing (· = '*') name
  let canonical := (KeyedList.find? theoremAliases base).getD base
  match KeyedList.find? theoremStyles canonical with
  | some style =>
    some ⟨canonical, style.label.toList, paletteColor style.color, style.italic⟩
  | none =>
    (KeyedList.find? defined base).map fun label => ⟨base, label, paletteColor "blue", true⟩

/-- A bold label at the start of a list item, up to its space, and the text
after it. -/
def readBoldLabel (text : Text) : Option (Text × Text) := do
  let after <- Text.dropFront? "- **".toList text
  let label := after.takeWhile (· ≠ '*')
  let rest <- Text.dropFront? "** ".toList (after.dropWhile (· ≠ '*'))
  some ("- **".toList ++ label ++ "** ".toList, rest)

/-- The number of a list item up to its space, and the text after it. -/
def readItemNumber (text : Text) : Option (Text × Text) := do
  let digits := text.takeWhile Text.isDecimal
  let rest <- Text.dropFront? ". ".toList (text.dropWhile Text.isDecimal)
  if digits.isEmpty then none else some (digits ++ ". ".toList, rest)

/-- The marker of a list item with the blanks before it, and the text of the
item. -/
def splitListLine (line : Text) : Option (Text × Text) :=
  let text := Text.trimStart line
  let bullet := (Text.dropFront? "- ".toList text).map fun rest => ("- ".toList, rest)
  (readBoldLabel text <|> bullet <|> readItemNumber text).map fun (marker, rest) =>
    (line.takeWhile Text.isBlank ++ marker, rest)

/-- Whether a text starts with an element or a heading. -/
def startsWithMarkup (text : Text) : Bool :=
  text.head? = some '<' || text.head? = some '#'

/-- Whether a line keeps its own form inside an italic body. -/
def isStructural (store : FragmentStore) (line : Text) : Bool :=
  let text := Text.trimStart line
  text.isEmpty || startsWithMarkup text || Text.startsWith "\\begin".toList text ||
    Text.startsWith "\\end".toList text || store.containsBlock line

/-- A text in italics. -/
def emphasized (text : Text) : Text :=
  '*' :: text ++ ['*']

/-- A line of an italic body. -/
def italicizeLine (store : FragmentStore) (line : Text) : Text :=
  if isStructural store line then line
  else match splitListLine line with
    | some (marker, item) =>
      if (Text.trim item).isEmpty then line else marker ++ emphasized (Text.trim item)
    | none => emphasized (Text.trim line)

/-- A body in italics, line by line. -/
def italicize (store : FragmentStore) (body : Text) : Text :=
  Text.joinWith ['\n'] ((Text.lines body).map (italicizeLine store))

/-- Whether a body must not stand in one line with the heading. -/
def startsWithStructure (store : FragmentStore) (body : Text) : Bool :=
  let first := (Text.lines body).headD []
  store.startsWithBlock body || startsWithMarkup first || (splitListLine first).isSome

/-- The heading of an environment with an optional title. -/
def Theorem.heading (environment : Theorem) (title : Option Text) : Text :=
  if environment.label.isEmpty then []
  else match title.map Text.trim with
    | some (c :: title) =>
      "**".toList ++ environment.label ++ " (".toList ++ c :: title ++ ").**".toList
    | _ => "**".toList ++ environment.label ++ ".**".toList

/-- A tag of an element, which a preview leaves out. -/
def readTag (text : Text) : Option (Text × Text) := do
  let inside <- Text.dropFront? ['<'] text
  let rest <- Text.dropFront? ['>'] (inside.dropWhile (· ≠ '>'))
  if inside.head? = some '>' then none else some ([' '], rest)

/-- The heading and the start of the body in one line. -/
def renderExcerpt (heading : Text) (limit : Nat) (body : Text) : Text :=
  let excerpt := Fragment.preview limit (Scan.substitute readTag body)
  if heading.isEmpty then excerpt
  else if excerpt.isEmpty then heading
  else heading ++ ' ' :: excerpt

/-- The sign that ends a proof. -/
def proofEnd : Text :=
  ['∎']

/-- The body of an environment, set in its style. -/
def Theorem.content (environment : Theorem) (store : FragmentStore) (body : Text) : Text :=
  let content := if environment.italic then italicize store body else body
  if environment.name = "proof".toList then Text.trimEnd content ++ ' ' :: proofEnd else content

/-- A heading before a content, in one line where the content allows it. -/
def withHeading (store : FragmentStore) (heading content : Text) : Text :=
  if heading.isEmpty then content
  else if content.isEmpty then heading
  else if startsWithStructure store content then heading ++ "\n\n".toList ++ content
  else heading ++ ' ' :: content

/-- A theorem-like environment, written out. -/
def Theorem.render (environment : Theorem) (options : Options) (store : FragmentStore)
    (title : Option Text) (body : Text) : Text :=
  let heading := environment.heading title
  let body := Text.trim body
  if options.preview then renderExcerpt heading options.environmentLimit body
  else
    let content := withHeading store heading (environment.content store body)
    Html.paragraph ("<div class=\"latex-env latex-env-".toList ++ environment.name ++
      "\" style=\"border-left: 4px solid ".toList ++ environment.color ++
      "; padding-left: 12px;\">".toList ++ Html.paragraph content ++ "</div>".toList)

end LatexMarkdown.Block
