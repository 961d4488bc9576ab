/-
Decimal text of doubles. Reading rounds the exact decimal value once. Writing takes the shortest
decimal that reads back as the same double, and of several the nearest; the search tries each
number of digits on exact integers, so a result found by it reads back by construction.
-/
import SmallLisp.Binary64.Basic

namespace SmallLisp

/-- The number `digits * 10 ^ exponent`. -/
structure Decimal where
  digits : Nat
  exponent : Int
  deriving DecidableEq

/-- The number of decimal digits of a natural number; 1 for zero. -/
def decimalLength (n : Nat) : Nat := (Nat.toDigits 10 n).length

namespace Decimal

/-- Moves trailing zeros of the digits into the exponent; the value stays. -/
def trim (d : Decimal) : List Char × Int :=
  let reversed := (Nat.toDigits 10 d.digits).reverse
  let zeros := (reversed.takeWhile (· == '0')).length
  ((reversed.drop zeros).reverse, d.exponent + zeros)

end Decimal

namespace Binary64

/-! ## Reading -/

/-- The double nearest to a decimal. Decimals far beyond the range of doubles are settled by
their length, so that no huge power is formed. -/
def ofDecimal (negative : Bool) (d : Decimal) : Binary64 :=
  if d.digits = 0 then zero negative
  else
    let magnitude := decimalLength d.digits + d.exponent
    if 310 < magnitude then .infinite negative
    else if magnitude < -330 then zero negative
    else if 0 ≤ d.exponent then ofRatio negative (d.digits * Nat.pow 10 d.exponent.toNat) 1
    else ofRatio negative d.digits (Nat.pow 10 (-d.exponent).toNat)

/-! ## The shortest decimal -/

/-- The exponent of the leading decimal digit of a magnitude in units, which is not zero. -/
def leadingExponent (magnitude : Nat) : Int :=
  (decimalLength (magnitude * Nat.pow 10 340 / unitsPerOne) : Int) - 341

/-- A magnitude in units divided by `10 ^ exponent`, as numerator and denominator. -/
def gridQuotient (magnitude : Nat) (exponent : Int) : Nat × Nat :=
  if 0 ≤ exponent then (magnitude, unitsPerOne * Nat.pow 10 exponent.toNat)
  else (magnitude * Nat.pow 10 (-exponent).toNat, unitsPerOne)

/-- Of the two multiples of `10 ^ exponent` around a positive finite double, the one that reads
back as it; if both do, the nearer, and on a tie the even one. -/
def nearestOnGrid? (x : Binary64) (exponent : Int) : Option Decimal :=
  let (num, den) := gridQuotient x.magnitude exponent
  let below : Decimal := ⟨num / den, exponent⟩
  let above : Decimal := ⟨num / den + 1, exponent⟩
  let readsBack (d : Decimal) : Bool := ofDecimal false d == x
  if readsBack below then
    if readsBack above then some ⟨roundQuotient num den, exponent⟩ else some below
  else if readsBack above then some above
  else none

/-- Every double is a decimal: a unit is `5 ^ 1074 * 10 ^ -1074`. -/
def exactDecimal (x : Binary64) : Decimal := ⟨x.magnitude * Nat.pow 5 1074, -1074⟩

/-- The decimal with the fewest digits that reads back as a positive finite double. Seventeen
digits are enough for every double. -/
def shortestDecimal (x : Binary64) : Decimal :=
  let leading := leadingExponent x.magnitude
  ((List.range 17).findSome? fun (n : Nat) => nearestOnGrid? x (leading - n)).getD x.exactDecimal

/-! ## Writing -/

/-- Smallest and largest exponent of a leading digit that is written without an exponent part. -/
def positionalRange : Int × Int := (-4, 15)

/-- An exponent with its sign and at least two digits. -/
def exponentText (exponent : Int) : String :=
  let digits := toString exponent.natAbs
  (if exponent < 0 then "-" else "+") ++ (if digits.length < 2 then "0" ++ digits else digits)

/-- Digits with the point after `point` of them; zeros fill what lies between the digits and the
point, and one digit stands on either side of the point. -/
def positionalText (digits : List Char) (point : Int) : String :=
  let count := digits.length
  if point ≤ 0 then
    "0." ++ String.ofList (List.replicate (-point).toNat '0' ++ digits)
  else if point.toNat < count then
    String.ofList (digits.take point.toNat) ++ "." ++ String.ofList (digits.drop point.toNat)
  else
    String.ofList (digits ++ List.replicate (point.toNat - count) '0') ++ ".0"

/-- One digit before the point, the others after it, then the exponent of the first digit. -/
def scientificText (digits : List Char) (leading : Int) : String :=
  let fraction := digits.drop 1
  String.ofList (digits.take 1) ++ (if fraction.isEmpty then "" else "." ++ String.ofList fraction)
    ++ "e" ++ exponentText leading

/-- The text of a positive decimal number. -/
def decimalText (d : Decimal) : String :=
  let (digits, exponent) := d.trim
  let leading := exponent + digits.length - 1
  if positionalRange.1 ≤ leading ∧ leading ≤ positionalRange.2 then
    positionalText digits (leading + 1)
  else scientificText digits leading

/-- The text of a double: the shortest decimal that reads back, always with a point or an
exponent. -/
def toText : Binary64 → String
  | .nan => "nan"
  | .infinite negative => if negative then "-inf" else "inf"
  | .finite negative mantissa scale h =>
    (if negative then "-" else "") ++
      if mantissa = 0 then "0.0" else decimalText (shortestDecimal (.finite false mantissa scale h))

end Binary64

end SmallLisp
