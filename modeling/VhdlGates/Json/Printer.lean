import VhdlGates.Json

/-! Writing JSON, without blanks or indented. -/
namespace VhdlGates.Json

/-- Four hexadecimal digits, in lower case. -/
def fourHexDigits (n : Nat) : List Char :=
  [n / 4096 % 16, n / 256 % 16, n / 16 % 16, n % 16].map Nat.digitChar

/-- The escape of a code below `10000` in hexadecimal. -/
def hexEscape (code : Nat) : List Char := '\\' :: 'u' :: fourHexDigits code

/-- A character inside a string. Only quotes, backslashes and controls are escaped. -/
def charText (c : Char) : List Char :=
  if c = '"' then ['\\', '"']
  else if c = '\\' then ['\\', '\\']
  else if c = '\x08' then ['\\', 'b']
  else if c = '\x0c' then ['\\', 'f']
  else if c = '\n' then ['\\', 'n']
  else if c = '\r' then ['\\', 'r']
  else if c = '\t' then ['\\', 't']
  else if c.toNat < 0x20 then hexEscape c.toNat
  else [c]

def letterText : Letter → List Char
  | .char c => charText c
  | .surrogate code => hexEscape code

def stringText (text : List Letter) : List Char := '"' :: text.flatMap letterText ++ ['"']

def boolText (value : Bool) : List Char := (if value then "true" else "false").toList

mutual

/-- The document without blanks. -/
def compact : Json → List Char
  | null => "null".toList
  | bool value => boolText value
  | number literal => literal
  | string text => stringText text
  | array items => '[' :: compactItems items ++ [']']
  | object members => '\x7b' :: compactMembers members ++ ['\x7d']

def compactItems : List Json → List Char
  | [] => []
  | [item] => compact item
  | item :: next :: rest => compact item ++ ',' :: compactItems (next :: rest)

def compactMembers : List (List Letter × Json) → List Char
  | [] => []
  | [(name, value)] => stringText name ++ ':' :: compact value
  | (name, value) :: next :: rest =>
    stringText name ++ ':' :: compact value ++ ',' :: compactMembers (next :: rest)

end

/-- The start of a line that is indented by `depth` steps of two columns. -/
def newLine (depth : Nat) : List Char := '\n' :: List.replicate (2 * depth) ' '

mutual

/-- The document with every item and member on a line of its own; `depth` is that of the line in
which it starts. -/
def indented (depth : Nat) : Json → List Char
  | null => "null".toList
  | bool value => boolText value
  | number literal => literal
  | string text => stringText text
  | array [] => ['[', ']']
  | array (item :: rest) =>
    '[' :: indentedItems (depth + 1) (item :: rest) ++ newLine depth ++ [']']
  | object [] => ['\x7b', '\x7d']
  | object (member :: rest) =>
    '\x7b' :: indentedMembers (depth + 1) (member :: rest) ++ newLine depth ++ ['\x7d']

def indentedItems (depth : Nat) : List Json → List Char
  | [] => []
  | [item] => newLine depth ++ indented depth item
  | item :: next :: rest =>
    newLine depth ++ indented depth item ++ ',' :: indentedItems depth (next :: rest)

def indentedMembers (depth : Nat) : List (List Letter × Json) → List Char
  | [] => []
  | [(name, value)] => newLine depth ++ stringText name ++ ':' :: ' ' :: indented depth value
  | (name, value) :: next :: rest =>
    newLine depth ++ stringText name ++ ':' :: ' ' :: indented depth value ++
      ',' :: indentedMembers depth (next :: rest)

end

end VhdlGates.Json
