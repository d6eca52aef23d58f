import LatexMarkdown.Color
import LatexMarkdown.Scan.Enclosed
import LatexMarkdown.Scan.Environment

/-!
# Definitions in a document

Colours and theorem-like environments that a document defines are remembered.
All other definitions and declarations only configure the typesetter and are
dropped.
-/

namespace LatexMarkdown.Preamble

/-- Take the definitions of colours out of a document. -/
def captureColors (colors : ColorTable) (text : Text) : ColorTable × Text :=
  let (colors, text) := Scan.editCommand "definecolor".toList ⟨true, 0, 3⟩
    (fun colors arguments =>
      ((ColorTable.define colors (arguments.argument 0) (arguments.argument 1)
        (arguments.argument 2)).1, some [])) colors text
  Scan.editCommand "colorlet".toList ⟨true, 0, 2⟩
    (fun colors arguments =>
      (ColorTable.copy colors (arguments.argument 0) (arguments.argument 1), some []))
    colors text

/-- A theorem-like environment: its name and its label. -/
structure TheoremDefinition where
  name : Text
  label : Text
  deriving DecidableEq, Repr

/-- The definition of a theorem-like environment at the start of the text, and
the text after it. -/
def readTheorem (text : Text) : Option (TheoremDefinition × Text) := do
  let after <- Text.dropFront? "\\newtheorem".toList text
  let after := (Text.dropFront? ['*'] after).getD after
  let (name, after) <- Scan.readEnclosed '{' '}' (Text.trimStart after)
  let after := Scan.skipEnclosed '[' ']' after
  let (label, after) <- Scan.readEnclosed '{' '}' (Text.trimStart after)
  some (⟨Text.trim name, Text.trim label⟩, Scan.skipEnclosed '[' ']' after)

/-- Take the definitions of theorem-like environments out of a document. -/
def captureTheorems (theorems : KeyedList Text) (text : Text) : KeyedList Text × Text :=
  Scan.edit (fun theorems _ suffix =>
    match readTheorem suffix with
    | some (definition, rest) =>
      (KeyedList.put theorems definition.name definition.label,
        some (Scan.Edit.upTo suffix rest []))
    | none => (theorems, none)) theorems text

/-- The shapes of definitions. -/
inductive Shape where
  /-- A command, with a number of arguments, a default and one body. -/
  | command
  /-- An environment, with a number of arguments, a default and two bodies. -/
  | environment
  /-- A command with a parameter text before its body. -/
  | parameterText
  deriving DecidableEq, Repr

/-- The text after the name that a definition defines. -/
def afterDefinedName? (text : Text) : Option Text :=
  match text with
  | [] => none
  | c :: rest =>
    if c = '{' then (Scan.readBraced text).map Prod.snd
    else if c = '\\' then
      let afterLetters := rest.dropWhile fun c => c.isAlpha || c = '@'
      if afterLetters.length < rest.length then some afterLetters else some rest.tail
    else none

/-- The most bytes that a parameter text takes. -/
def parameterLimit : Nat := 32

/-- The text after at most a number of options. -/
def skipOptions : (limit : Nat) -> Text -> Text
  | 0, text => text
  | limit + 1, text =>
    match Scan.readBracketed (Text.skipGap text) with
    | some (_, rest) => skipOptions limit rest
    | none => text

/-- The text after a definition whose command has just been read. -/
def afterDefinition? (shape : Shape) (text : Text) : Option Text := do
  let text := (Text.dropFront? ['*'] text).getD text
  let after <- afterDefinedName? (Text.skipGap text)
  match shape with
  | .parameterText =>
    let parameters := after.takeWhile (· ≠ '{')
    if parameterLimit < Text.utf8Length parameters || parameters.any (· = '\n') then none
    else (Scan.readBraced (after.dropWhile (· ≠ '{'))).map Prod.snd
  | .command => (Scan.readRequired 1 (skipOptions 2 after)).map Prod.snd
  | .environment => (Scan.readRequired 2 (skipOptions 2 after)).map Prod.snd

/-- Drop the definitions that a command makes. -/
def stripDefinitions (name : Text) (shape : Shape) (text : Text) : Text :=
  (Scan.edit (fun (_ : Unit) cursor suffix =>
    if cursor.escaped then ((), none)
    else ((), do
      let after <- Scan.afterCommand? name suffix
      let rest <- afterDefinition? shape after
      some (Scan.Edit.upTo suffix rest []))) () text).2

/-- The commands that define something, in the order in which they are looked
for. -/
def definingCommands : List (Text × Shape) :=
  [("newcommand", Shape.command), ("renewcommand", .command), ("providecommand", .command),
    ("newenvironment", .environment), ("renewenvironment", .environment),
    ("def", .parameterText)].map fun (name, shape) => (name.toList, shape)

/-- A setting of a length whose name stands without braces, up to its end. -/
def readLengthSetting (text : Text) : Option (Text × Text) := do
  let after <- Scan.afterOneOf? ["\\setlength".toList, "\\addtolength".toList] text
  let name <- Text.dropFront? ['\\'] (Text.trimStart after)
  let after := name.dropWhile fun c => c.isAlpha || c = '@'
  if after.length = name.length then none
  else (Scan.readEnclosed '{' '}' (Text.trimStart after)).map fun (_, rest) => ([], rest)

/-- A command that only configures the typesetter. -/
structure Declaration where
  name : String
  maxOptions : Nat
  required : Nat
  deriving DecidableEq, Repr

/-- The commands that only configure the typesetter. -/
def declarations : List Declaration :=
  [⟨"documentclass", 1, 1⟩, ⟨"usepackage", 1, 1⟩, ⟨"RequirePackage", 1, 1⟩, ⟨"input", 0, 1⟩,
    ⟨"include", 0, 1⟩, ⟨"includeonly", 0, 1⟩, ⟨"bibliographystyle", 0, 1⟩,
    ⟨"bibliography", 0, 1⟩, ⟨"addbibresource", 1, 1⟩, ⟨"nocite", 0, 1⟩, ⟨"pagestyle", 0, 1⟩,
    ⟨"thispagestyle", 0, 1⟩, ⟨"fancyhead", 1, 1⟩, ⟨"fancyfoot", 1, 1⟩, ⟨"fancyhf", 1, 1⟩,
    ⟨"lhead", 1, 1⟩, ⟨"chead", 1, 1⟩, ⟨"rhead", 1, 1⟩, ⟨"lfoot", 1, 1⟩, ⟨"cfoot", 1, 1⟩,
    ⟨"rfoot", 1, 1⟩, ⟨"setlength", 0, 2⟩, ⟨"addtolength", 0, 2⟩, ⟨"setcounter", 0, 2⟩,
    ⟨"addtocounter", 0, 2⟩, ⟨"geometry", 0, 1⟩, ⟨"hypersetup", 0, 1⟩, ⟨"graphicspath", 0, 1⟩,
    ⟨"linespread", 0, 1⟩, ⟨"DeclareMathOperator", 0, 2⟩, ⟨"theoremstyle", 0, 1⟩,
    ⟨"numberwithin", 1, 2⟩, ⟨"tableofcontents", 0, 0⟩, ⟨"listoffigures", 0, 0⟩,
    ⟨"listoftables", 0, 0⟩, ⟨"makeatletter", 0, 0⟩, ⟨"makeatother", 0, 0⟩,
    ⟨"frontmatter", 0, 0⟩, ⟨"mainmatter", 0, 0⟩, ⟨"backmatter", 0, 0⟩, ⟨"appendix", 0, 0⟩,
    ⟨"printbibliography", 1, 0⟩, ⟨"onehalfspacing", 0, 0⟩, ⟨"doublespacing", 0, 0⟩,
    ⟨"singlespacing", 0, 0⟩, ⟨"raggedright", 0, 0⟩, ⟨"raggedleft", 0, 0⟩]

/-- Drop all definitions and declarations. -/
def stripDeclarations (text : Text) : Text :=
  let text := definingCommands.foldl (fun text (name, shape) =>
    stripDefinitions name shape text) text
  let text := Scan.substitute readLengthSetting text
  declarations.foldl (fun text declaration =>
    Scan.replaceCommand declaration.name.toList ⟨true, declaration.maxOptions, declaration.required⟩
      (fun _ => some []) text) text

/-- The part of a text between the markers of the document; without an opening
marker it starts at the start, and without a closing one it ends at the end. -/
def documentBody (text : Text) : Text :=
  let inside := match Text.splitFirst? (Scan.beginMarker "document".toList) text with
    | some (_, after) => after
    | none => text
  match Text.splitFirst? (Scan.endMarker "document".toList) inside with
  | some (before, _) => before
  | none => inside

end LatexMarkdown.Preamble
