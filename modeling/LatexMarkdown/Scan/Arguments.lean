import LatexMarkdown.Scan.Group

/-!
# Arguments

A command or environment opener takes an optional star, then bracketed options
up to a number, then an exact number of braced arguments. Gaps may stand before
each of them. An option that opens and does not close spoils the whole reading.
-/

namespace LatexMarkdown.Scan

/-- What was read after a command or an environment opener. -/
structure Arguments where
  starred : Bool
  options : List Text
  required : List Text
  deriving DecidableEq, Repr

namespace Arguments

/-- The option at a position, if it was given. -/
def option? (arguments : Arguments) (index : Nat) : Option Text :=
  arguments.options[index]?

/-- The braced argument at a position, and nothing where there is none. -/
def argument (arguments : Arguments) (index : Nat) : Text :=
  arguments.required.getD index []

end Arguments

/-- Read at most `limit` bracketed options. -/
def readOptions : (limit : Nat) -> Text -> Option (List Text × Text)
  | 0, text => some ([], text)
  | limit + 1, text =>
    if (Text.skipGap text).head? = some '[' then do
      let (inner, rest) <- readBracketed (Text.skipGap text)
      let (others, rest) <- readOptions limit rest
      some (inner :: others, rest)
    else some ([], text)

/-- Read exactly `count` braced arguments. -/
def readRequired : (count : Nat) -> Text -> Option (List Text × Text)
  | 0, text => some ([], text)
  | count + 1, text => do
    let (inner, rest) <- readBraced (Text.skipGap text)
    let (others, rest) <- readRequired count rest
    some (inner :: others, rest)

/-- How many options and braced arguments a command or environment takes, and
whether it has a starred form of its own. -/
structure Signature where
  starrable : Bool
  maxOptions : Nat
  required : Nat
  deriving DecidableEq, Repr

/-- Read the arguments at the start of the text; the text after the last of them
is the second part. -/
def readArguments (signature : Signature) (text : Text) : Option (Arguments × Text) :=
  let starred := signature.starrable && text.head? = some '*'
  let text := if starred then text.tail else text
  do
    let (options, rest) <- readOptions signature.maxOptions text
    let (required, rest) <- readRequired signature.required rest
    some (⟨starred, options, required⟩, rest)

end LatexMarkdown.Scan
