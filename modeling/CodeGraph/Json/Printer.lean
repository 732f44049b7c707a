import CodeGraph.Json

/-!
# Writing JSON

Two layouts: everything on one line, and one member a line. Only quotes, backslashes and control
characters are escaped.
-/

namespace CodeGraph.Json

/-- A hexadecimal digit. -/
def hexDigit (n : Nat) : Char :=
  Nat.digitChar (n % 16)

/-- The characters that stand for one character of a text. -/
def escape (c : Char) : List Char :=
  if c == '"' then ['\\', '"']
  else if c == '\\' then ['\\', '\\']
  else if c == '\x08' then ['\\', 'b']
  else if c == '\t' then ['\\', 't']
  else if c == '\n' then ['\\', 'n']
  else if c == '\x0c' then ['\\', 'f']
  else if c == '\r' then ['\\', 'r']
  else if c.toNat < 0x20 then
    ['\\', 'u', '0', '0', hexDigit (c.toNat / 16), hexDigit c.toNat]
  else [c]

/-- A text in quotes. -/
def quote (s : String) : String :=
  String.ofList ('"' :: (s.toList.flatMap escape ++ ['"']))

/-- The text of an integer. -/
def intText (n : Int) : String :=
  toString n

/-- The text of a value without parts. -/
def scalarText : Json → String
  | null => "null"
  | bool true => "true"
  | bool false => "false"
  | int n => intText n
  | decimal digits exponent => intText digits ++ "e" ++ intText exponent
  | infinite word => word
  | string s => quote s
  | array _ => "[]"
  | object _ => "\x7b\x7d"

mutual

/-- The value on one line. -/
def compact : Json → String
  | array items => "[" ++ compactItems items ++ "]"
  | object members => "\x7b" ++ compactMembers members ++ "\x7d"
  | null => scalarText null
  | bool b => scalarText (bool b)
  | int n => scalarText (int n)
  | decimal d e => scalarText (decimal d e)
  | infinite w => scalarText (infinite w)
  | string s => scalarText (string s)

/-- Items with commas between them. -/
def compactItems : List Json → String
  | [] => ""
  | [item] => compact item
  | item :: rest => compact item ++ "," ++ compactItems rest

/-- Members with commas between them. -/
def compactMembers : List (String × Json) → String
  | [] => ""
  | [(name, value)] => quote name ++ ":" ++ compact value
  | (name, value) :: rest => quote name ++ ":" ++ compact value ++ "," ++ compactMembers rest

end

/-- The start of a line at a depth. -/
def lineStart (depth : Nat) : String :=
  "\n" ++ String.ofList (List.replicate (2 * depth) ' ')

mutual

/-- The value with every part on a line of its own, at a depth. -/
def indentedAt (depth : Nat) : Json → String
  | array [] => scalarText (array [])
  | array (item :: rest) =>
    "[" ++ indentedItems (depth + 1) (item :: rest) ++ lineStart depth ++ "]"
  | object [] => scalarText (object [])
  | object (m :: rest) =>
    "\x7b" ++ indentedMembers (depth + 1) (m :: rest) ++ lineStart depth ++ "\x7d"
  | null => scalarText null
  | bool b => scalarText (bool b)
  | int n => scalarText (int n)
  | decimal d e => scalarText (decimal d e)
  | infinite w => scalarText (infinite w)
  | string s => scalarText (string s)

/-- Items, each on its line. -/
def indentedItems (depth : Nat) : List Json → String
  | [] => ""
  | [item] => lineStart depth ++ indentedAt depth item
  | item :: rest => lineStart depth ++ indentedAt depth item ++ "," ++ indentedItems depth rest

/-- Members, each on its line. -/
def indentedMembers (depth : Nat) : List (String × Json) → String
  | [] => ""
  | [(name, value)] => lineStart depth ++ quote name ++ ": " ++ indentedAt depth value
  | (name, value) :: rest =>
    lineStart depth ++ quote name ++ ": " ++ indentedAt depth value ++ "," ++
      indentedMembers depth rest

end

/-- The value with every part on a line of its own. -/
def indented (j : Json) : String :=
  indentedAt 0 j

end CodeGraph.Json
