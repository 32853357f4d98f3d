import VhdlGates.Json
import VhdlGates.Reading

/-! Reading JSON, strictly: one document, between blanks. -/
namespace VhdlGates.Json

/-- The characters that may stand between the parts of a document. -/
def isGap (c : Char) : Bool := c == ' ' || c == '\t' || c == '\n' || c == '\r'

/-- Reads the next character that is no gap. -/
def next? : (text : List Char) → Option (Reading Char Char text.length)
  | [] => none
  | c :: rest =>
    if isGap c then (next? rest).map (·.widen (Nat.le_succ _))
    else some ⟨c, rest, Nat.lt_succ_self _⟩

def hexValue? (c : Char) : Option Nat :=
  if c.isDigit then some (c.toNat - '0'.toNat)
  else if 'a' ≤ c ∧ c ≤ 'f' then some (c.toNat - 'a'.toNat + 10)
  else if 'A' ≤ c ∧ c ≤ 'F' then some (c.toNat - 'A'.toNat + 10)
  else none

/-- The code of four hexadecimal digits. -/
def hexCode? (a b c d : Char) : Option Nat := do
  return (((← hexValue? a) * 16 + (← hexValue? b)) * 16 + (← hexValue? c)) * 16 + (← hexValue? d)

/-- What an escaped code stands for. -/
def ofCode (code : Nat) : Letter :=
  if isHighSurrogate code || isLowSurrogate code then .surrogate code
  else .char (Char.ofNat code)

/-- What a backslash and this character stand for. -/
def escaped? : Char → Option Char
  | '"' => some '"'
  | '\\' => some '\\'
  | '/' => some '/'
  | 'b' => some '\x08'
  | 'f' => some '\x0c'
  | 'n' => some '\n'
  | 'r' => some '\r'
  | 't' => some '\t'
  | _ => none

/-- Reads a string after its opening quote. Controls have to be escaped. -/
def string? : (text : List Char) → Option (Reading Char (List Letter) text.length)
  | [] => none
  | '"' :: rest => some ⟨[], rest, Nat.lt_succ_self _⟩
  | '\\' :: 'u' :: a :: b :: c :: d :: rest => do
    let code ← hexCode? a b c d
    let ⟨letters, after, h⟩ ← string? rest
    return ⟨ofCode code :: letters, after, by simp only [List.length_cons]; omega⟩
  | '\\' :: c :: rest => do
    let char ← escaped? c
    let ⟨letters, after, h⟩ ← string? rest
    return ⟨.char char :: letters, after, by simp only [List.length_cons]; omega⟩
  | c :: rest =>
    if c = '\\' ∨ c.toNat < 0x20 then none
    else do
      let ⟨letters, after, h⟩ ← string? rest
      return ⟨.char c :: letters, after, by simp only [List.length_cons]; omega⟩

/-- Reads at least one digit. -/
def digits? : (text : List Char) → Option (Reading Char (List Char) text.length)
  | [] => none
  | c :: rest =>
    if c.isDigit then
      match digits? rest with
      | some ⟨more, after, h⟩ => some ⟨c :: more, after, Nat.lt_succ_of_lt h⟩
      | none => some ⟨[c], rest, Nat.lt_succ_self _⟩
    else none

/-- Reads a whole number, which has no needless zero in front. -/
def whole? : (text : List Char) → Option (Reading Char (List Char) text.length)
  | '0' :: rest => some ⟨['0'], rest, Nat.lt_succ_self _⟩
  | text => digits? text

/-- Reads the fraction of a number, if it has one. -/
def fraction? : (text : List Char) → Option (Reading Char (List Char) (text.length + 1))
  | '.' :: rest => do
    let ⟨digits, after, h⟩ ← digits? rest
    return ⟨'.' :: digits, after, by simp only [List.length_cons]; omega⟩
  | text => some ⟨[], text, Nat.lt_succ_self _⟩

/-- Reads the sign of an exponent, if it has one. -/
def exponentSign : (text : List Char) → Reading Char (List Char) (text.length + 1)
  | '+' :: rest => ⟨['+'], rest, by simp only [List.length_cons]; omega⟩
  | '-' :: rest => ⟨['-'], rest, by simp only [List.length_cons]; omega⟩
  | text => ⟨[], text, Nat.lt_succ_self _⟩

/-- Reads the exponent of a number, if it has one. -/
def exponent? : (text : List Char) → Option (Reading Char (List Char) (text.length + 1))
  | [] => some ⟨[], [], Nat.lt_succ_self _⟩
  | c :: rest =>
    if c = 'e' ∨ c = 'E' then do
      let ⟨sign, after, h₁⟩ := exponentSign rest
      let ⟨digits, after, h₂⟩ ← digits? after
      return ⟨c :: sign ++ digits, after, by simp only [List.length_cons]; omega⟩
    else some ⟨[], c :: rest, Nat.lt_succ_self _⟩

/-- Reads a number without its sign. -/
def magnitude? (text : List Char) : Option (Reading Char (List Char) text.length) := do
  let ⟨whole, rest, h₁⟩ ← whole? text
  let ⟨fraction, rest, h₂⟩ ← fraction? rest
  let ⟨exponent, rest, h₃⟩ ← exponent? rest
  return ⟨whole ++ fraction ++ exponent, rest, by omega⟩

/-- Reads a number as it is written. -/
def number? : (text : List Char) → Option (Reading Char (List Char) text.length)
  | '-' :: rest => do
    let ⟨literal, after, h⟩ ← magnitude? rest
    return ⟨'-' :: literal, after, Nat.lt_succ_of_lt h⟩
  | text => magnitude? text

/-- Reads exactly this word. -/
def word? : (word text : List Char) → Option (Reading Char Unit (text.length + 1))
  | [], text => some ⟨(), text, Nat.lt_succ_self _⟩
  | _ :: _, [] => none
  | c :: word, d :: rest =>
    if c = d then (word? word rest).map (·.widen (Nat.le_succ _)) else none

/-- Reads exactly this character after gaps. -/
def mark? (c : Char) (text : List Char) : Option (Reading Char Unit text.length) := do
  let ⟨d, rest, h⟩ ← next? text
  if c = d then return ⟨(), rest, h⟩ else none

mutual

/-- Reads a document after gaps. -/
def value? (text : List Char) : Option (Reading Char Json text.length) := do
  let ⟨c, rest, h⟩ ← next? text
  match c with
  | 'n' =>
    let ⟨_, rest, h'⟩ ← word? "ull".toList rest
    return ⟨null, rest, by omega⟩
  | 't' =>
    let ⟨_, rest, h'⟩ ← word? "rue".toList rest
    return ⟨bool true, rest, by omega⟩
  | 'f' =>
    let ⟨_, rest, h'⟩ ← word? "alse".toList rest
    return ⟨bool false, rest, by omega⟩
  | '"' =>
    let ⟨text, rest, h'⟩ ← string? rest
    return ⟨string text, rest, by omega⟩
  | '[' =>
    match mark? ']' rest with
    | some ⟨_, rest, h'⟩ => return ⟨array [], rest, by omega⟩
    | none =>
      let ⟨items, rest, h'⟩ ← items? rest
      return ⟨array items, rest, by omega⟩
  | '\x7b' =>
    match mark? '\x7d' rest with
    | some ⟨_, rest, h'⟩ => return ⟨object [], rest, by omega⟩
    | none =>
      let ⟨members, rest, h'⟩ ← members? rest
      return ⟨object members, rest, by omega⟩
  | c =>
    let ⟨literal, rest, h'⟩ ← number? (c :: rest)
    return ⟨number literal, rest, by simp only [List.length_cons] at h'; omega⟩
termination_by 2 * text.length

/-- Reads the items of an array and its closing bracket. -/
def items? (text : List Char) : Option (Reading Char (List Json) text.length) := do
  let ⟨first, rest, h₁⟩ ← value? text
  match mark? ',' rest with
  | some ⟨_, rest, h₂⟩ =>
    let ⟨others, rest, h₃⟩ ← items? rest
    return ⟨first :: others, rest, by omega⟩
  | none =>
    let ⟨_, rest, h₂⟩ ← mark? ']' rest
    return ⟨[first], rest, by omega⟩
termination_by 2 * text.length + 1

/-- Reads the members of an object and its closing brace. -/
def members? (text : List Char) :
    Option (Reading Char (List (List Letter × Json)) text.length) := do
  let ⟨_, rest, h₁⟩ ← mark? '"' text
  let ⟨name, rest, h₂⟩ ← string? rest
  let ⟨_, rest, h₃⟩ ← mark? ':' rest
  let ⟨value, rest, h₄⟩ ← value? rest
  match mark? ',' rest with
  | some ⟨_, rest, h₅⟩ =>
    let ⟨others, rest, h₆⟩ ← members? rest
    return ⟨(name, value) :: others, rest, by omega⟩
  | none =>
    let ⟨_, rest, h₅⟩ ← mark? '\x7d' rest
    return ⟨[(name, value)], rest, by omega⟩
termination_by 2 * text.length + 1

end

/-- The document that a text writes. -/
def parse? (text : String) : Option Json := do
  let ⟨document, rest, _⟩ ← value? text.toList
  if rest.all isGap then return document else none

end VhdlGates.Json
