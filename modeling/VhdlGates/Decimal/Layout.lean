import VhdlGates.Decimal.Shortest

/-! Two ways to write a number in its shortest digits. -/
namespace VhdlGates.Decimal

/-- Digits around a point, never with a power of ten. A whole number has no point. -/
def positional (d : Digits) : List Char :=
  if d.point ≤ 0 then '0' :: '.' :: List.replicate (-d.point).toNat '0' ++ d.digits
  else
    let places := d.point.toNat
    if d.digits.length ≤ places then
      d.digits ++ List.replicate (places - d.digits.length) '0'
    else d.digits.take places ++ '.' :: d.digits.drop places

/-- One digit before the point, and a power of ten. -/
def scientific (d : Digits) : List Char :=
  let fraction := d.digits.drop 1
  d.digits.take 1 ++ (if fraction.isEmpty then [] else '.' :: fraction) ++
    'e' :: (toString (d.point - 1)).toList

/-- A sign, then the text of the magnitude. -/
def signed (negative : Bool) (magnitude : List Char) : String :=
  String.ofList (if negative then '-' :: magnitude else magnitude)

def infinity : List Char := ['i', 'n', 'f']

namespace Binary64

/-- The number in positional digits; zero keeps its sign. -/
def plain : Binary64 → String
  | .finite negative significand exponent =>
    signed negative
      (if significand = 0 then ['0'] else positional (shortestDigits significand exponent))
  | .infinite negative => signed negative infinity
  | .notANumber => "NaN"

/-- The number as outlines show it: a whole number ends in a zero fraction, and a magnitude below
`10 ^ -4` or from `10 ^ 16` on has a power of ten. -/
def detailed : Binary64 → String
  | .finite negative significand exponent =>
    if significand = 0 then signed negative ['0', '.', '0']
    else
      let d := shortestDigits significand exponent
      if d.point < -3 || 16 < d.point then signed negative (scientific d)
      else
        let text := positional d
        signed negative (if text.contains '.' then text else text ++ ['.', '0'])
  | .infinite negative => signed negative infinity
  | .notANumber => "NaN"

end Binary64

end VhdlGates.Decimal
