/-! Binary floating-point numbers of 64 bits, as exact values, and the nearest of them to a
ratio. -/
namespace VhdlGates.Decimal

/-- A number of the format. A finite one is `± significand · 2 ^ exponent`, with a significand
below `2 ^ 53` that is at least `2 ^ 52` unless the exponent is the least one. -/
inductive Binary64 where
  | finite (negative : Bool) (significand : Nat) (exponent : Int)
  | infinite (negative : Bool)
  | notANumber
  deriving DecidableEq, Repr, Inhabited

namespace Binary64

/-- The power of two with this exponent. -/
def twoTo (n : Nat) : Nat := Nat.pow 2 n

/-- The power of ten with this exponent. -/
def tenTo (n : Nat) : Nat := Nat.pow 10 n

def leastExponent : Int := -1074
def greatestExponent : Int := 971

def zero (negative : Bool) : Binary64 := .finite negative 0 leastExponent

/-- Zero of either sign. -/
def isZero : Binary64 → Bool
  | .finite _ significand _ => significand == 0
  | _ => false

def one : Binary64 := .finite false (twoTo 52) (-52)

def isOne (x : Binary64) : Bool := x == one

/-- A power of two as a fraction of whole numbers. -/
def powerOfTwo (exponent : Int) : Nat × Nat := (twoTo exponent.toNat, twoTo (-exponent).toNat)

/-- The quotient rounded to the nearest whole number, a half to the even neighbour. -/
def roundQuotient (num den : Nat) : Nat :=
  let quotient := num / den
  let twice := 2 * (num % den)
  if den < twice || (den == twice && quotient % 2 == 1) then quotient + 1 else quotient

/-- The exponent at which `num / den` has a significand of 53 bits, if the format reaches so
low. -/
def exponentOf (num den : Nat) : Int :=
  let guess := max leastExponent ((num.log2 : Int) - den.log2 - 53)
  let (up, down) := powerOfTwo guess
  if twoTo 53 ≤ num * down / (den * up) then guess + 1 else guess

/-- The number of the format nearest to `± num / den`; a half goes to the even significand, and
what would exceed every finite number is infinite. -/
def ofRatio (negative : Bool) (num den : Nat) : Binary64 :=
  if num = 0 then zero negative
  else
    let exponent := exponentOf num den
    let (up, down) := powerOfTwo exponent
    let significand := roundQuotient (num * down) (den * up)
    let (significand, exponent) :=
      if significand = twoTo 53 then (twoTo 52, exponent + 1) else (significand, exponent)
    if greatestExponent < exponent then .infinite negative
    else .finite negative significand exponent

/-- The number nearest to `± digits · 10 ^ exponent`. Beyond the range of the format the power of
ten is never computed. -/
def ofScientific (negative : Bool) (digits : Nat) (exponent : Int) : Binary64 :=
  let magnitude := exponent + (Nat.toDigits 10 digits).length
  if digits = 0 || magnitude < -330 then zero negative
  else if 310 < magnitude then .infinite negative
  else ofRatio negative (digits * tenTo exponent.toNat) (tenTo (-exponent).toNat)

end Binary64

end VhdlGates.Decimal
