/-! JSON documents as trees. -/
namespace VhdlGates

namespace Json

/-- A unit of a string: a character, or half of a surrogate pair, which only an escape can
write. -/
inductive Letter where
  | char (c : Char)
  | surrogate (code : Nat)
  deriving DecidableEq, Repr

end Json

/-- A document. A number is kept as it is written, and an object keeps all its members in
order. -/
inductive Json where
  | null
  | bool (value : Bool)
  | number (literal : List Char)
  | string (text : List Json.Letter)
  | array (items : List Json)
  | object (members : List (List Json.Letter × Json))
  deriving Repr, Inhabited

namespace Json

def isHighSurrogate (code : Nat) : Bool := 0xD800 ≤ code && code ≤ 0xDBFF

def isLowSurrogate (code : Nat) : Bool := 0xDC00 ≤ code && code ≤ 0xDFFF

/-- The character that a pair of surrogates stands for. -/
def pairedChar (high low : Nat) : Char :=
  Char.ofNat (0x10000 + (high - 0xD800) * 0x400 + (low - 0xDC00))

/-- The characters of a string, if all its surrogates are paired. -/
def chars? : List Letter → Option (List Char)
  | [] => some []
  | .char c :: rest => (chars? rest).map (c :: ·)
  | .surrogate high :: .surrogate low :: rest =>
    if isHighSurrogate high && isLowSurrogate low then
      (chars? rest).map (pairedChar high low :: ·)
    else none
  | .surrogate _ :: _ => none

/-- The text of a string, if all its surrogates are paired. -/
def decode? (text : List Letter) : Option String := (chars? text).map String.ofList

def encode (text : String) : List Letter := text.toList.map .char

theorem chars?_map_char (cs : List Char) : chars? (cs.map .char) = some cs := by
  induction cs with
  | nil => rfl
  | cons c cs ih => simp [chars?, ih]

@[simp] theorem decode?_encode (text : String) : decode? (encode text) = some text := by
  simp [decode?, encode, chars?_map_char]

def ofString (text : String) : Json := .string (encode text)

def ofNat (n : Nat) : Json := .number (Nat.toDigits 10 n)

/-- An object with these members. -/
def ofFields (fields : List (String × Json)) : Json :=
  .object (fields.map fun (name, value) => (encode name, value))

def toString? : Json → Option String
  | .string text => decode? text
  | _ => none

/-- A whole number that fits in 32 bits, if it is written as one. -/
def toUInt32? : Json → Option UInt32
  | .number literal =>
    if literal.all Char.isDigit then
      let value := literal.foldl (fun n c => 10 * n + (c.toNat - '0'.toNat)) 0
      if value < UInt32.size then some (UInt32.ofNat value) else none
    else none
  | _ => none

def toList? : Json → Option (List Json)
  | .array items => some items
  | _ => none

/-- The members of an object by name, if all names are well formed. -/
def namedMembers? (members : List (List Letter × Json)) : Option (List (String × Json)) :=
  members.mapM fun (name, value) => (decode? name).map fun name => (name, value)

/-- The value of the one member of this name. -/
def member? (members : List (String × Json)) (name : String) : Option Json :=
  match members.filter (·.1 == name) with
  | [(_, value)] => some value
  | _ => none

/-- The values of the fields of a record, in this order. A record is written as an object in which
each field occurs once, among others that are passed over, or as an array of the values. -/
def fields? (names : List String) : Json → Option (List Json)
  | .array items => if items.length = names.length then some items else none
  | .object members => do
    let members ← namedMembers? members
    names.mapM (member? members)
  | _ => none

/-- The name of one of several choices, written as a string or as an object with the name and a
null. -/
def choice? : Json → Option String
  | .string text => decode? text
  | .object [(name, .null)] => decode? name
  | _ => none

end Json

end VhdlGates
