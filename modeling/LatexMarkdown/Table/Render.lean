import LatexMarkdown.Fragment.Store
import LatexMarkdown.Math.Family
import LatexMarkdown.Scan.Declaration
import LatexMarkdown.Style
import LatexMarkdown.Symbol.Normalize
import LatexMarkdown.Table.Grid

/-!
# Tables in the output

A table becomes an HTML table. The content of a cell is converted on its own:
formulas are kept, nested tables are converted first, and text commands turn
into HTML. How a nested table is converted is a parameter here.
-/

namespace LatexMarkdown.Table

/-- A kind of environment for tables; its last braced argument is the column
specification. -/
structure Family where
  name : String
  maxOptions : Nat
  required : Nat
  deriving DecidableEq, Repr

/-- The environments for tables, in the order in which they are looked for. -/
def families : List Family :=
  [⟨"tabular", 1, 1⟩, ⟨"tabular*", 1, 2⟩, ⟨"tabularx", 0, 2⟩, ⟨"longtable", 1, 1⟩]

/-- The column specification of a table. -/
def Family.specification (family : Family) (environment : Scan.Environment) : Text :=
  environment.arguments.argument (family.required - 1)

/-- The specials that are escaped in a cell, with what stands for them. -/
def escapedSpecials : List (Text × Text) :=
  [("\\&".toList, "&amp;".toList), ("\\%".toList, ['%']), ("\\#".toList, ['#']),
    ("\\_".toList, ['_']), ("\\$".toList, "&#36;".toList), (['\\', '{'], ['{']),
    (['\\', '}'], ['}'])]

/-- Put the specials of a cell in place of their escaped forms. -/
def unescapeSpecials (text : Text) : Text :=
  escapedSpecials.foldl (fun text (pattern, replacement) =>
    Scan.replaceAll pattern replacement text) text

/-- What is written in the place of a nested table. The state says whether all
tables so far had an output; after one that had none no further one is tried. -/
def nestedAnswer (table? : Text -> Text -> Option Text) (family : Family) :
    Scan.Answer Bool Scan.Environment :=
  fun complete environment =>
    match if complete then table? (family.specification environment) environment.body
      else none with
    | some table => (complete, some table)
    | none => (false, some [])

/-- Convert all tables of one kind inside a cell. -/
def renderNested (table? : Text -> Text -> Option Text) (family : Family) (complete : Bool)
    (text : Text) : Bool × Text :=
  Scan.editEnvironment family.name.toList family.maxOptions family.required
    (nestedAnswer table? family) complete text

/-- Convert all tables inside a cell, one kind after another. -/
def renderFamilies (table? : Text -> Text -> Option Text) (kinds : List Family)
    (start : Bool × Text) : Bool × Text :=
  kinds.foldl (fun (complete, text) family => renderNested table? family complete text) start

/-- Put the text commands and declarations of a cell into HTML. -/
def renderStyles (colors : ColorTable) (text : Text) : Text :=
  let text := Style.commands.foldl (fun text (name, style) =>
    Scan.replaceCommand name ⟨true, 0, 1⟩ (fun arguments =>
      some (style.wrapHtml (arguments.argument 0))) text) text
  let text := Scan.replaceDeclaration (fun declaration =>
    (KeyedList.find? Style.declarations declaration.name).map fun style =>
      style.wrapHtml declaration.rest) text
  Scan.replaceCommand "textcolor".toList ⟨true, 1, 2⟩ (fun arguments =>
    some (Html.styled "span"
      (Html.property "color"
        (colors.resolveInModel (arguments.option? 0) (arguments.argument 0)))
      (Text.trim (arguments.argument 1)))) text

/-- The content of a cell with its formulas in a store of its own. -/
def storeFormulas (colors : ColorTable) (content : Text) : FragmentStore × Text :=
  let formula := fun body => Math.inlined (Math.clean colors body)
  let (store, text) := FragmentStore.empty.protectDelimited Math.parentheses
    (fun body => some (formula body)) content
  store.protectDollars formula text

/-- What is done with the content of a cell once its tables are converted. -/
def finishCell (colors : ColorTable) (store : FragmentStore) (text : Text) : Text :=
  store.restore (Text.trim (Symbol.normalize (unescapeSpecials (renderStyles colors text))))

/-- The content of a cell; `table?` converts the tables inside it. -/
def renderCell? (colors : ColorTable) (table? : Text -> Text -> Option Text) (content : Text) :
    Option Text :=
  let (store, text) := storeFormulas colors content
  let (complete, text) := renderFamilies table? families (true, text)
  if complete then some (finishCell colors store text) else none

/-- A table; `table?` converts the tables inside its cells. -/
def renderGrid? (colors : ColorTable) (table? : Text -> Text -> Option Text)
    (specification body : Text) : Option Text :=
  html? (renderCell? colors table?) (readGrid colors (columns specification) body)

end LatexMarkdown.Table
