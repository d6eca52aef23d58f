import LatexMarkdown.Block.Theorem
import LatexMarkdown.Scan.Enclosed
import LatexMarkdown.Warning

/-!
# Converting environments

Theorem-like environments are converted from the outside in. Of environments
that nothing has converted the markers are dropped, with one warning for each
name.
-/

namespace LatexMarkdown.Block

/-- What the conversion of theorem-like environments depends on. -/
structure TheoremContext where
  options : Options
  store : FragmentStore
  defined : KeyedList Text
  deriving DecidableEq, Repr

/-- The name in an opening marker at the start of the text: letters with at most
one star. -/
def readOpeningName (text : Text) : Option Text := do
  let name <- Text.dropFront? ("\\begin".toList ++ ['{']) text
  let letters := name.takeWhile Char.isAlpha
  let after := name.dropWhile Char.isAlpha
  if letters.isEmpty then none
  else match after with
    | '}' :: _ => some letters
    | '*' :: '}' :: _ => some (letters ++ ['*'])
    | _ => none

/-- The rule for theorem-like environments; `nested` converts their bodies. -/
def theoremRule (context : TheoremContext) (nested : Text -> Text) : Scan.Rule Unit :=
  fun _ cursor text => ((), do
    let name <- readOpeningName text
    let environment <- findTheorem? context.defined name
    let required := if environment.name = "thebibliography".toList then 1 else 0
    let (span, rest) <- Scan.readEnvironment name 1 required cursor text
    some (Scan.Edit.upTo text rest
      (environment.render context.options context.store (span.arguments.option? 0)
        (nested span.body))))

/-- Convert theorem-like environments down to a nesting depth. -/
def convertTheoremsAt (context : TheoremContext) : (depth : Nat) -> Text -> Text
  | 0, text => text
  | depth + 1, text =>
    (Scan.edit (theoremRule context (convertTheoremsAt context depth)) () text).2

/-- Convert all theorem-like environments. A body is shorter than the text
around it, so the length of the text bounds how deep they nest. -/
def convertTheorems (context : TheoremContext) (text : Text) : Text :=
  convertTheoremsAt context text.length text

/-- A name in braces on a single line, and the text after it. -/
def readMarkerName (marker text : Text) : Option (Text × Text) := do
  let after <- Text.dropFront? marker text
  let (name, rest) <- Scan.readEnclosedInLine '{' '}' after
  if name.isEmpty then none else some (name, rest)

/-- Drop the opening markers of a text with their options; their names are
collected, each once. -/
def dropOpenings (names : List Text) (text : Text) : List Text × Text :=
  Scan.edit (fun names _ suffix =>
    match readMarkerName "\\begin".toList suffix with
    | none => (names, none)
    | some (name, rest) =>
      let name := Text.trim name
      (if names.elem name then names else names ++ [name],
        some (Scan.Edit.upTo suffix (Scan.skipLineOption rest) []))) names text

/-- Drop the closing markers of a text. -/
def dropClosings (text : Text) : Text :=
  Scan.substitute (fun suffix =>
    (readMarkerName "\\end".toList suffix).map fun (_, rest) => ([], rest)) text

/-- Drop the markers of all environments that are left. -/
def dropUnknown (text : Text) : List Warning × Text :=
  let (names, text) := dropOpenings [] text
  (names.map (Warning.about .unknownEnvironment), dropClosings text)

end LatexMarkdown.Block
