import LatexMarkdown.Fragment.Store
import LatexMarkdown.Html
import LatexMarkdown.Length

/-!
# Links and images

The targets of links and the paths of images are moved into the store, so that
no character in them is taken for markup. The text of a link stays in the
document and is converted with it.
-/

namespace LatexMarkdown.Link

/-- A link in Markdown. -/
def renderLink (label target : Text) : Text :=
  '[' :: label ++ "](".toList ++ target ++ [')']

/-- The name of a file without its folders and extensions. -/
def baseName (path : Text) : Text :=
  let file := ((Text.splitOn '/' path).getLast?).getD path
  file.takeWhile (· ≠ '.')

/-- The width that one option gives. -/
def readWidth (option : Text) : Option Text := do
  let after <- Text.dropFront? "width".toList (Text.trimStart option)
  let value <- Text.dropFront? ['='] (Text.trimStart after)
  if value.isEmpty then none else some value

/-- The first width among options separated by commas. -/
def findWidth (options : Text) : Option Text :=
  (Text.splitOn ',' options).findSome? readWidth

/-- An image. One with a width needs an HTML element. -/
def renderImage (path : Text) (options : Option Text) : Text :=
  let alt := baseName path
  match options.bind findWidth with
  | some width =>
    "<img src=\"".toList ++ Text.escapeHtml path ++ "\" alt=\"".toList ++ Text.escapeHtml alt ++
      "\" style=\"width: ".toList ++ Length.convert width ++ ";\">".toList
  | none => '!' :: renderLink alt path

/-- What a preview shows of an image. -/
def imagePreview : Text :=
  "[imagen]".toList

/-- Move the targets of all links, and all images, into the store. -/
def protect (preview : Bool) (store : FragmentStore) (text : Text) : FragmentStore × Text :=
  let (store, text) := Scan.editCommand "url".toList ⟨true, 0, 1⟩ (fun store arguments =>
    let target := Text.trim (arguments.argument 0)
    let (store, token) := FragmentStore.push store (renderLink target target)
    (store, some token)) store text
  let (store, text) := Scan.editCommand "href".toList ⟨true, 0, 2⟩ (fun store arguments =>
    let (store, token) := FragmentStore.push store (Text.trim (arguments.argument 0))
    (store, some (renderLink (Text.trim (arguments.argument 1)) token))) store text
  Scan.editCommand "includegraphics".toList ⟨true, 1, 1⟩ (fun store arguments =>
    let image := if preview then imagePreview
      else renderImage (Text.trim (arguments.argument 0)) (arguments.option? 0)
    let (store, token) := FragmentStore.push store image
    (store, some token)) store text

end LatexMarkdown.Link
