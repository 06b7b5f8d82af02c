import PackChoice.Decimal.Shortest

/-!
Numbers of documents. A number written as a plain integer that fits in 64 bits is an integer;
every other number is a double. `NumberText.value?` gives the value of a number's text: the digits
are gathered as long as they fit in 64 bits, and the result is scaled by a power of ten, once for
exponents up to 308. A number too large for a double has no value.
-/

namespace PackChoice

/-- The value of a number in a document. -/
inductive Number where
  /-- A plain integer, at least `-2 ^ 63` and below `2 ^ 64`. -/
  | integer (n : Int)
  | float (x : Float)

/-- The text of a number, taken apart. -/
structure NumberText where
  negative : Bool
  /-- The digits before the point. -/
  whole : List Nat
  /-- The digits after the point, of which there is at least one. -/
  fraction : Option (List Nat)
  exponent : Option Int

namespace NumberText

/-- Two to the power 64, the first number that does not fit in 64 bits. -/
def wordLimit : Nat := Nat.pow 2 64

/-- Gathers digits while they fit in 64 bits: the number gathered and how many digits are left. -/
def gather : Nat → List Nat → Nat × Nat
  | n, [] => (n, 0)
  | n, d :: ds => if n * 10 + d < wordLimit then gather (n * 10 + d) ds else (n, ds.length + 1)

/-- Ten to the power `e` as a double. -/
def powerOfTen (e : Nat) : Float := Float.ofScientific 1 false e

/-- `x` times a power of ten, unless that is beyond the doubles. -/
def scaleUp? (x : Float) (e : Nat) : Option Float :=
  if e ≤ 308 then
    let y := x * powerOfTen e
    if y.isInf then none else some y
  else if x == 0 then some x
  else none

/-- `x` divided by a power of ten, in steps of at most `10 ^ 308`. -/
def scaleDown (x : Float) (e : Nat) : Float :=
  if e ≤ 308 then x / powerOfTen e
  else if x == 0 then x
  else scaleDown (x / powerOfTen 308) (e - 308)
termination_by e

/-- `significand · 10 ^ exponent` as a double. -/
def scaled? (significand : Nat) (exponent : Int) : Option Float :=
  let x := significand.toUInt64.toFloat
  if 0 ≤ exponent then scaleUp? x exponent.toNat else some (scaleDown x (-exponent).toNat)

/-- The value of a number's text. -/
def value? (t : NumberText) : Option Number :=
  let sign (x : Float) : Float := if t.negative then -x else x
  let (significand, left) := gather 0 t.whole
  if t.fraction.isNone && t.exponent.isNone && left == 0 then
    if !t.negative then some (.integer significand)
    else if significand != 0 && decide (significand ≤ wordLimit / 2) then
      some (.integer (-significand))
    else some (.float (-significand.toUInt64.toFloat))
  else
    let digits := t.fraction.getD []
    let (significand, dropped) := gather significand digits
    let exponent : Int := left + dropped - digits.length + t.exponent.getD 0
    (scaled? significand exponent).map fun x => .float (sign x)

end NumberText

/-- How a decimal is laid out: positional when the exponent of its first digit is at least -5 and
at most 15, with at least one digit on either side of the point; otherwise with an exponent, which
has a sign. -/
def Decimal.text (d : Decimal) : String :=
  let digits := Nat.toDigits 10 d.digits
  let count := digits.length
  let first : Int := count + d.exponent - 1
  if decide (-5 ≤ first) && decide (first ≤ 15) then
    if 0 ≤ d.exponent then
      String.ofList (digits ++ List.replicate d.exponent.toNat '0' ++ ['.', '0'])
    else if 0 ≤ first then
      let before := first.toNat + 1
      String.ofList (digits.take before ++ '.' :: digits.drop before)
    else
      String.ofList (['0', '.'] ++ List.replicate (-first - 1).toNat '0' ++ digits)
  else
    let mantissa := digits.take 1 ++ (if count == 1 then [] else '.' :: digits.drop 1)
    let sign := if first < 0 then '-' else '+'
    String.ofList (mantissa ++ 'e' :: sign :: Nat.toDigits 10 first.natAbs)

/-- The shortest text of a finite double. -/
def floatText (x : Float) : String :=
  let sign := if x.toBits >>> 63 == 1 then "-" else ""
  match Decimal.Binary.ofBits? x.toBits with
  | none => sign ++ "0.0"
  | some b => sign ++ b.shortest.text

namespace Number

/-- The text of a number in a document. -/
def text : Number → String
  | .integer n => toString n
  | .float x => floatText x

/-- The natural number that is written as a plain integer. -/
def toNat? : Number → Option Nat
  | .integer n => if 0 ≤ n then some n.toNat else none
  | .float _ => none

/-- Whether the number has no fractional part. -/
def isWhole : Number → Bool
  | .integer _ => true
  | .float x => x.floor == x

/-- Whether the number is zero or above. -/
def isNonnegative : Number → Bool
  | .integer n => decide (0 ≤ n)
  | .float x => decide (0 ≤ x)

end Number

end PackChoice
