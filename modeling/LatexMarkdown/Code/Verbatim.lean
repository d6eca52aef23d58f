import LatexMarkdown.Fragment.Preview
import LatexMarkdown.Fragment.Store
import LatexMarkdown.Html
import LatexMarkdown.Options.Basic
import LatexMarkdown.Text.Classes

/-!
# Code

Code blocks and inline code are moved into the store before anything else is
looked at, so that nothing inside them is taken for markup.
-/

namespace LatexMarkdown.Code

/-- Lines without the blank ones at the start. -/
def dropBlankLines : List Text -> List Text
  | [] => []
  | line :: others => if Text.isBlankText line then dropBlankLines others else line :: others

/-- A body without blank lines at the start and without blanks at the end. -/
def trimBody (body : Text) : Text :=
  Text.trimEnd (dropBlankLines (Text.linesWithBreaks body)).flatten

/-- A fenced code block, or in a preview the start of the code with dots. -/
def renderBlock (options : Options) (language body : Text) : Text :=
  if options.preview then
    let excerpt := Fragment.preview options.verbatimLimit body
    let dots := "...".toList
    Text.escapeHtml (if Text.endsWith dots excerpt then excerpt else excerpt ++ dots)
  else "\n```".toList ++ language ++ '\n' :: trimBody body ++ "\n```\n".toList

/-- A character of the name of a programming language. -/
def isLanguageCharacter (c : Char) : Bool :=
  c.isAlphanum || c = '+' || c = '#' || c = '_' || c = '-'

/-- The language named at the start of the text. -/
def readLanguage (text : Text) : Option Text := do
  let after <- Text.dropFront? "language".toList text
  let after <- Text.dropFront? ['='] (Text.trimStart after)
  let after := Text.trimStart after
  let after := (Text.dropFront? ['{'] after).getD after
  let name := (Text.trimStart after).takeWhile isLanguageCharacter
  if name.isEmpty then none else some (name.map Char.toLower)

/-- The first language named anywhere in the text. -/
def findLanguage : Text -> Option Text
  | [] => none
  | c :: rest => readLanguage (c :: rest) <|> findLanguage rest

/-- The language that the options of a listing name. -/
def listingLanguage (arguments : Scan.Arguments) : Text :=
  ((arguments.option? 0).bind findLanguage).getD []

/-- Inline code between its delimiters, and the text after it. Code in a listing
style may have options and stand in braces. The code ends in the line in which it
starts. Unlike the end of a word, a delimiter is judged by the letters of
Unicode 17. -/
def readInline (name : Text) (listing : Bool) (text : Text) : Option (Text × Text) := do
  let after <- Scan.afterCommand? name text
  let after := (Text.dropFront? ['*'] after).getD after
  let after := if listing then
      match Scan.readBracketed (Text.skipGap after) with
      | some (_, rest) => rest
      | none => after
    else after
  match after with
  | [] => none
  | delimiter :: inside =>
    if Text.isAlphabetic delimiter || Text.isAddedAlphabetic delimiter ||
        Text.isBlank delimiter then none
    else
      let closing := if delimiter = '{' then '}' else delimiter
      let code := inside.takeWhile fun c => c ≠ closing && c ≠ '\n'
      let rest <- Text.dropFront? [closing] (inside.dropWhile fun c => c ≠ closing && c ≠ '\n')
      some (code, rest)

/-- Inline code as an element. -/
def renderInline (code : Text) : Text :=
  "<code>".toList ++ Text.escapeHtml code ++ "</code>".toList

/-- The rule for the inline code of a command. -/
def inlineRule {σ : Type} (name : Text) (listing : Bool) (answer : σ -> Text -> σ × Text) :
    Scan.Rule σ :=
  fun state cursor suffix =>
    match if cursor.escaped then none else readInline name listing suffix with
    | none => (state, none)
    | some (code, rest) =>
      let (state, replacement) := answer state code
      (state, some (Scan.Edit.upTo suffix rest replacement))

/-- Edit all inline code of a command. -/
def editInline {σ : Type} (name : Text) (listing : Bool) (answer : σ -> Text -> σ × Text)
    (state : σ) (text : Text) : σ × Text :=
  Scan.edit (inlineRule name listing answer) state text

/-- Store inline code. -/
def storeInline (store : FragmentStore) (code : Text) : FragmentStore × Text :=
  store.push (renderInline code)

/-- A kind of environment for code, and how its arguments name the language. -/
structure Family where
  name : String
  maxOptions : Nat
  required : Nat
  language : Scan.Arguments -> Text

/-- The environments for code, in the order in which they are looked for. -/
def families : List Family :=
  [⟨"verbatim", 0, 0, fun _ => []⟩, ⟨"verbatim*", 0, 0, fun _ => []⟩,
    ⟨"lstlisting", 1, 0, listingLanguage⟩, ⟨"Verbatim", 1, 0, listingLanguage⟩,
    ⟨"minted", 1, 1, fun arguments => (Text.trim (arguments.argument 0)).map Char.toLower⟩]

/-- Move all code of a document into the store. -/
def protect (options : Options) (store : FragmentStore) (text : Text) : FragmentStore × Text :=
  let (store, text) := families.foldl (fun (store, text) family =>
    FragmentStore.protectEnvironment store family.name.toList family.maxOptions family.required
      (fun environment => some
        (renderBlock options (family.language environment.arguments) environment.body)) text)
    (store, text)
  let (store, text) := editInline "verb".toList false storeInline store text
  editInline "lstinline".toList true storeInline store text

end LatexMarkdown.Code
