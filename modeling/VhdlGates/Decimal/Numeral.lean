import VhdlGates.Decimal.Binary64

/-! Reading a number from its written form: an optional sign, digits with an optional point, and
an optional power of ten; or the name of an infinity or of no number. -/
namespace VhdlGates.Decimal

/-- The value of a run of decimal digits. -/
def digitsValue (digits : List Char) : Nat :=
  digits.foldl (fun value c => 10 * value + (c.toNat - '0'.toNat)) 0

/-- An optional sign, `true` for minus, and what follows it. -/
def splitSign : List Char → Bool × List Char
  | '-' :: rest => (true, rest)
  | '+' :: rest => (false, rest)
  | text => (false, text)

/-- The digits in front, and what follows them. -/
def splitDigits (text : List Char) : List Char × List Char :=
  (text.takeWhile Char.isDigit, text.dropWhile Char.isDigit)

/-- The power of ten that a run of digits writes. As soon as it is at least `2 ^ 16`, the digits
that follow are passed over. -/
def exponentValue (digits : List Char) : Nat :=
  digits.foldl
    (fun value c => if value < 65536 then 10 * value + (c.toNat - '0'.toNat) else value) 0

/-- The power of ten at the end of a numeral: nothing, or a mark, an optional sign and digits. -/
def readExponent? : List Char → Option Int
  | [] => some 0
  | mark :: rest =>
    if mark = 'e' || mark = 'E' then
      let (negative, text) := splitSign rest
      if text.isEmpty || !text.all Char.isDigit then none
      else
        let value : Int := exponentValue text
        some (if negative then -value else value)
    else none

/-- An unsigned numeral in digits. The point needs a digit on one of its sides. -/
def readDigits? (negative : Bool) (text : List Char) : Option Binary64 :=
  let (whole, rest) := splitDigits text
  let (fraction, rest) :=
    match rest with
    | '.' :: after => splitDigits after
    | other => ([], other)
  if whole.isEmpty && fraction.isEmpty then none
  else
    (readExponent? rest).map fun exponent =>
      .ofScientific negative (digitsValue (whole ++ fraction)) (exponent - fraction.length)

/-- The number that a text writes, if it is a numeral. -/
def readNumeral? (text : List Char) : Option Binary64 :=
  let (negative, magnitude) := splitSign text
  let name := String.ofList (magnitude.map Char.toLower)
  if name = "inf" || name = "infinity" then some (.infinite negative)
  else if name = "nan" then some .notANumber
  else readDigits? negative magnitude

end VhdlGates.Decimal
