/-!
The shortest decimal that reads back as a given double: of all decimals in the interval of reals
that round to the double, one with the fewest digits, and of those the nearest to the double.
Everything is decided in exact integer arithmetic.
-/

namespace PackChoice

/-- A positive decimal `digits · 10 ^ exponent`. -/
structure Decimal where
  digits : Nat
  exponent : Int
deriving DecidableEq

namespace Decimal

/-- A positive double `significand · 2 ^ exponent`. -/
structure Binary where
  significand : Nat
  exponent : Int

/-- The double of these bits without its sign; `none` for zero, infinities and values that are
not numbers. -/
def Binary.ofBits? (bits : UInt64) : Option Binary :=
  let fraction : Nat := bits.toNat % Nat.pow 2 52
  let biased : Nat := bits.toNat / Nat.pow 2 52 % 2048
  if biased == 2047 then none
  else if biased == 0 then if fraction == 0 then none else some ⟨fraction, -1074⟩
  else some ⟨Nat.pow 2 52 + fraction, (biased : Int) - 1075⟩

/-- An interval around a value, all three over one denominator. -/
structure Around where
  low : Nat
  value : Nat
  high : Nat
  denominator : Nat
  /-- Whether the ends belong to the interval. -/
  closed : Bool

/-- The reals that round to a double. Below a power of two the neighbour is half as far away. -/
def Binary.around (b : Binary) : Around :=
  let unit := Nat.pow 2 (b.exponent - 2).toNat
  let below := if b.significand == Nat.pow 2 52 && decide (-1074 < b.exponent) then 1 else 2
  { low := (4 * b.significand - below) * unit
    value := 4 * b.significand * unit
    high := (4 * b.significand + 2) * unit
    denominator := Nat.pow 2 (2 - b.exponent).toNat
    closed := b.significand % 2 == 0 }

/-- The exponent of the first digit of `numerator / denominator`. -/
def leadingExponent (numerator denominator : Nat) : Int :=
  if denominator ≤ numerator then
    ((Nat.toDigits 10 (numerator / denominator)).length : Int) - 1
  else
    -((Nat.toDigits 10 ((denominator + numerator - 1) / numerator - 1)).length : Int)

/-- The interval with everything multiplied by `10 ^ shift`. -/
def Around.scale (a : Around) (shift : Int) : Around :=
  let up := Nat.pow 10 shift.toNat
  { a with
    low := a.low * up
    value := a.value * up
    high := a.high * up
    denominator := a.denominator * Nat.pow 10 (-shift).toNat }

/-- Whether an integer lies in the interval. -/
def Around.holds (a : Around) (n : Nat) : Bool :=
  if a.closed then decide (a.low ≤ n * a.denominator) && decide (n * a.denominator ≤ a.high)
  else decide (a.low < n * a.denominator) && decide (n * a.denominator < a.high)

/-- The integer of the interval next to the value: the nearer of its two neighbours, the even
one of two that are equally near. -/
def Around.nearest? (a : Around) : Option Nat :=
  let below := a.value / a.denominator
  let above := below + 1
  let toBelow := a.value - below * a.denominator
  let toAbove := above * a.denominator - a.value
  let takeBelow := decide (toBelow < toAbove) || (toBelow == toAbove && below % 2 == 0)
  match a.holds below, a.holds above with
  | true, true => some (if takeBelow then below else above)
  | true, false => some below
  | false, true => some above
  | false, false => none

/-- The decimal without zeros at the end of its digits; `fuel` bounds their number. -/
def strip : Nat → Decimal → Decimal
  | 0, d => d
  | fuel + 1, d =>
    if d.digits % 10 == 0 && d.digits != 0 then strip fuel ⟨d.digits / 10, d.exponent + 1⟩ else d

/-- The shortest decimal of a double, tried with one digit, two digits and so on; seventeen
always suffice. -/
def Binary.shortest (b : Binary) : Decimal :=
  let a := b.around
  let first := leadingExponent a.value a.denominator
  let attempt (count : Nat) : Option Decimal :=
    let shift := (count : Int) - first
    ((a.scale shift).nearest?).map fun n => strip 20 ⟨n, -shift⟩
  ((List.range 17).findSome? attempt).getD ⟨0, 0⟩

end Decimal

end PackChoice
