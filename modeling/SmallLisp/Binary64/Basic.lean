/-
Doubles as exact data. Every finite double is a whole number of units of `2 ^ -1074`, so sums,
products, quotients and comparisons are computed on integers and rounded once (`ofUnits`), to the
nearest double with ties to the even mantissa.
-/

namespace SmallLisp

/-- A mantissa and a scale in lowest form: the mantissa fills its 53 bits unless the scale is 0. -/
def Binary64.Canonical (mantissa scale : Nat) : Prop :=
  mantissa < Nat.pow 2 53 ∧ scale ≤ 2045 ∧ (Nat.pow 2 52 ≤ mantissa ∨ scale = 0)

instance (mantissa scale : Nat) : Decidable (Binary64.Canonical mantissa scale) :=
  inferInstanceAs (Decidable (_ ∧ _ ∧ (_ ∨ _)))

/-- An IEEE 754 double with a single NaN. The magnitude of `finite` is `mantissa * 2 ^ scale` units
of `2 ^ -1074`; zero keeps its sign. -/
inductive Binary64 where
  | nan
  | infinite (negative : Bool)
  | finite (negative : Bool) (mantissa scale : Nat) (canonical : Binary64.Canonical mantissa scale)
  deriving DecidableEq

namespace Binary64

/-! ## Rounding -/

/-- How many units of `2 ^ -1074` make one. -/
def unitsPerOne : Nat := Nat.pow 2 1074

/-- The double with this mantissa and scale; a pair beyond the largest double is infinite. -/
def ofParts (negative : Bool) (mantissa scale : Nat) : Binary64 :=
  if h : Canonical mantissa scale then .finite negative mantissa scale h else .infinite negative

def zero (negative : Bool) : Binary64 := .finite negative 0 0 (by decide)

/-- The integer nearest to `num / den`; a half goes to the even neighbour. -/
def roundQuotient (num den : Nat) : Nat :=
  let whole := num / den
  let twice := 2 * (num % den)
  if den < twice ∨ (twice = den ∧ whole % 2 = 1) then whole + 1 else whole

/-- The scale at which a magnitude of `whole` units and a fraction keeps 53 bits. -/
def scaleFor (whole : Nat) : Nat := whole.log2 - 52

/-- The double nearest to `num / den` units, ties to the even mantissa. A mantissa that rounds up
to `2 ^ 53` is halved at the next scale. -/
def ofUnits (negative : Bool) (num den : Nat) : Binary64 :=
  let scale := scaleFor (num / den)
  let mantissa := roundQuotient num (den <<< scale)
  if mantissa = Nat.pow 2 53 then ofParts negative (Nat.pow 2 52) (scale + 1)
  else ofParts negative mantissa scale

/-- The double nearest to `num / den`. -/
def ofRatio (negative : Bool) (num den : Nat) : Binary64 :=
  ofUnits negative (num * unitsPerOne) den

/-- The double nearest to an integer; infinite when none is near. -/
def ofInt (n : Int) : Binary64 := ofRatio (decide (n < 0)) n.natAbs 1

/-! ## Parts -/

def isNegative : Binary64 → Bool
  | .nan => false
  | .infinite negative => negative
  | .finite negative .. => negative

/-- The magnitude in units; 0 stands for values that have none. -/
def magnitude : Binary64 → Nat
  | .finite _ mantissa scale _ => mantissa <<< scale
  | _ => 0

/-- The signed value in units; 0 stands for values that have none. -/
def units (x : Binary64) : Int :=
  if x.isNegative then -(x.magnitude : Int) else x.magnitude

def isZero : Binary64 → Bool
  | .finite _ mantissa _ _ => mantissa == 0
  | _ => false

/-! ## Arithmetic -/

def neg : Binary64 → Binary64
  | .nan => .nan
  | .infinite negative => .infinite (!negative)
  | .finite negative mantissa scale h => .finite (!negative) mantissa scale h

/-- The sum, rounded once. A sum of zero is negative only when both terms are. -/
def add (x y : Binary64) : Binary64 :=
  match x, y with
  | .nan, _ => .nan
  | _, .nan => .nan
  | .infinite a, .infinite b => if a = b then .infinite a else .nan
  | .infinite a, _ => .infinite a
  | _, .infinite b => .infinite b
  | x, y =>
    let sum := x.units + y.units
    if sum = 0 then zero (x.isNegative && y.isNegative)
    else ofUnits (decide (sum < 0)) sum.natAbs 1

def sub (x y : Binary64) : Binary64 := add x y.neg

/-- The product, rounded once; an infinity times zero is not a number. -/
def mul (x y : Binary64) : Binary64 :=
  let negative := x.isNegative != y.isNegative
  match x, y with
  | .nan, _ => .nan
  | _, .nan => .nan
  | .infinite _, y => if y.isZero then .nan else .infinite negative
  | x, .infinite _ => if x.isZero then .nan else .infinite negative
  | x, y => ofUnits negative (x.magnitude * y.magnitude) unitsPerOne

/-- The quotient, rounded once. -/
def div (x y : Binary64) : Binary64 :=
  let negative := x.isNegative != y.isNegative
  match x, y with
  | .nan, _ => .nan
  | _, .nan => .nan
  | .infinite _, .infinite _ => .nan
  | .infinite _, _ => .infinite negative
  | _, .infinite _ => zero negative
  | x, y =>
    if y.isZero then (if x.isZero then .nan else .infinite negative)
    else ofUnits negative (x.magnitude * unitsPerOne) y.magnitude

/-! ## Order -/

/-- A place on the extended line: infinities lie outside all places of the same `side` 0. -/
structure Position where
  side : Int
  units : Int
  deriving DecidableEq

def Position.compare (a b : Position) : Ordering :=
  (Ord.compare a.side b.side).then (Ord.compare a.units b.units)

/-- Where a double lies; NaN lies nowhere. The two zeros share a place. -/
def position? : Binary64 → Option Position
  | .nan => none
  | .infinite negative => some ⟨if negative then -1 else 1, 0⟩
  | x => some ⟨0, x.units⟩

end Binary64

end SmallLisp
