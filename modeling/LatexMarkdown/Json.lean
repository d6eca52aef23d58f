import LatexMarkdown.Text.Basic

/-!
# JSON values in text

Values are written in a form for machines, on one line, and in a form for
readers, with a line for each member and two spaces for each level.
-/

namespace LatexMarkdown

/-- A JSON value whose numbers are natural numbers. -/
inductive Json where
  | null
  | bool (value : Bool)
  | number (value : Nat)
  | string (value : Text)
  | array (items : List Json)
  | object (members : List (Text × Json))

namespace Json

/-- A text, or nothing. -/
def ofOption (text : Option Text) : Json :=
  match text with
  | some text => .string text
  | none => .null

/-- A character inside a JSON string. -/
def escapedCharacter (c : Char) : Text :=
  if c = '"' then ['\\', '"']
  else if c = '\\' then ['\\', '\\']
  else if c = '\n' then ['\\', 'n']
  else if c = '\r' then ['\\', 'r']
  else if c = '\t' then ['\\', 't']
  else if c.toNat = 8 then ['\\', 'b']
  else if c.toNat = 12 then ['\\', 'f']
  else if c.toNat < 32 then "\\u00".toList ++ Text.hexByte c.toNat
  else [c]

/-- A text as a JSON string. -/
def quoted (text : Text) : Text :=
  '"' :: text.flatMap escapedCharacter ++ ['"']

/-- A line break and the indentation of a level. -/
def newLine (level : Nat) : Text :=
  '\n' :: Text.repeated (2 * level) ' '

/-- Pieces between brackets, one on each line. -/
def enclosed (opening closing : Char) (level : Nat) (pieces : List Text) : Text :=
  if pieces.isEmpty then [opening, closing]
  else opening :: newLine (level + 1) ++
    Text.joinWith (',' :: newLine (level + 1)) pieces ++ newLine level ++ [closing]

/-- A truth value. -/
def ofTruth (value : Bool) : Text :=
  if value then "true".toList else "false".toList

mutual

/-- A value on one line. -/
def compact : Json -> Text
  | null => "null".toList
  | bool value => ofTruth value
  | number value => Text.ofNat value
  | string value => quoted value
  | array items => '[' :: Text.joinWith [','] (compactItems items) ++ [']']
  | object members => '{' :: Text.joinWith [','] (compactMembers members) ++ ['}']

/-- The items of an array, each on one line. -/
def compactItems : List Json -> List Text
  | [] => []
  | item :: others => compact item :: compactItems others

/-- The members of an object, each on one line. -/
def compactMembers : List (Text × Json) -> List Text
  | [] => []
  | (key, value) :: others => (quoted key ++ ':' :: compact value) :: compactMembers others

end

mutual

/-- A value with a line for each member, inside a number of levels. -/
def prettyAt : (level : Nat) -> Json -> Text
  | _, null => "null".toList
  | _, bool value => ofTruth value
  | _, number value => Text.ofNat value
  | _, string value => quoted value
  | level, array items => enclosed '[' ']' level (prettyItems (level + 1) items)
  | level, object members => enclosed '{' '}' level (prettyMembers (level + 1) members)

/-- The items of an array with a line for each member. -/
def prettyItems : (level : Nat) -> List Json -> List Text
  | _, [] => []
  | level, item :: others => prettyAt level item :: prettyItems level others

/-- The members of an object with a line for each member. -/
def prettyMembers : (level : Nat) -> List (Text × Json) -> List Text
  | _, [] => []
  | level, (key, value) :: others =>
    (quoted key ++ ": ".toList ++ prettyAt level value) :: prettyMembers level others

end

/-- A value with a line for each member. -/
def pretty (value : Json) : Text :=
  prettyAt 0 value

end Json

end LatexMarkdown
