import VhdlGates.Decimal.Binary64

/-! The shortest decimal digits that read back as a number, and of those the nearest to it. -/
namespace VhdlGates.Decimal

/-- The value `0.d₁d₂… · 10 ^ point`. -/
structure Digits where
  digits : List Char
  point : Int
  deriving DecidableEq, Repr

namespace Shortest

/-- A positive value in quarters of the last place, with the ends of the interval of reals that
round to it: `low ≤ 4 · significand ≤ high`, in units of `2 ^ (exponent - 2)`. The ends belong to
the interval if the significand is even. -/
structure Interval where
  low : Nat
  value : Nat
  high : Nat
  closed : Bool
  /-- The unit is `unitUp / unitDown`. -/
  unitUp : Nat
  unitDown : Nat

/-- The gap below a power of two is half of the gap above it, except at the least exponent. -/
def interval (significand : Nat) (exponent : Int) : Interval :=
  let narrow := significand == Binary64.twoTo 52 && Binary64.leastExponent < exponent
  let (up, down) := Binary64.powerOfTwo (exponent - 2)
  { low := 4 * significand - (if narrow then 1 else 2)
    value := 4 * significand
    high := 4 * significand + 2
    closed := significand % 2 == 0
    unitUp := up
    unitDown := down }

/-- The place of the decimal point: `10 ^ (point - 1) ≤ value < 10 ^ point`. -/
def pointOf (i : Interval) : Int :=
  let num := i.value * i.unitUp
  if i.unitDown ≤ num then (Nat.toDigits 10 (num / i.unitDown)).length
  else 1 - (Nat.toDigits 10 ((i.unitDown - 1) / num)).length

/-- A grid of decimals of some length: the multiples of `10 ^ place`, and on it the greatest
multiple that does not exceed the value. -/
structure Grid where
  /-- One step of the grid is `stepUp / stepDown`. -/
  stepUp : Nat
  stepDown : Nat
  below : Nat

def grid (i : Interval) (place : Int) : Grid :=
  let stepUp := Binary64.tenTo place.toNat
  let stepDown := Binary64.tenTo (-place).toNat
  { stepUp, stepDown, below := i.value * i.unitUp * stepDown / (i.unitDown * stepUp) }

/-- Whether `n` steps of the grid lie in the interval. -/
def within (i : Interval) (g : Grid) (n : Nat) : Bool :=
  let point := n * g.stepUp * i.unitDown
  let low := i.low * i.unitUp * g.stepDown
  let high := i.high * i.unitUp * g.stepDown
  if i.closed then low ≤ point && point ≤ high else low < point && point < high

/-- The one of the two neighbours of the value on the grid that lies in the interval; of both,
the nearer, and the upper one if they are equally near. -/
def neighbour? (i : Interval) (g : Grid) : Option Nat :=
  match within i g g.below, within i g (g.below + 1) with
  | false, false => none
  | true, false => some g.below
  | false, true => some (g.below + 1)
  | true, true =>
    let value := 2 * (i.value * i.unitUp * g.stepDown)
    let middle := (2 * g.below + 1) * g.stepUp * i.unitDown
    some (if value < middle then g.below else g.below + 1)

/-- The least number of digits whose grid meets the interval, with the grid's hit. Seventeen digits
tell any two numbers of the format apart, so the search goes no further. -/
def search? (i : Interval) (point : Int) : Option (Nat × Nat) :=
  (List.range' 1 17).findSome? fun (length : Nat) =>
    (neighbour? i (grid i (point - length))).map fun n => (length, n)

end Shortest

/-- The shortest digits of a positive number `significand · 2 ^ exponent`. A neighbour that carries
into the next power of ten is that power. -/
def shortestDigits (significand : Nat) (exponent : Int) : Digits :=
  let i := Shortest.interval significand exponent
  let point := Shortest.pointOf i
  match Shortest.search? i point with
  | some (length, n) =>
    if n = Binary64.tenTo length then ⟨['1'], point + 1⟩ else ⟨Nat.toDigits 10 n, point⟩
  | none => ⟨Nat.toDigits 10 (Shortest.grid i (point - 17)).below, point⟩

end VhdlGates.Decimal
