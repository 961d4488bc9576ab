/-
Numbers: integers of any size and doubles, mixed freely. Comparison is exact; arithmetic on two integers is
exact; any other arithmetic is that of doubles, which an integer must fit into. Section 3 of the
specification.
-/
import SmallLisp.Fault

namespace SmallLisp

inductive Number where
  | int (n : Int)
  | float (x : Binary64)
  deriving DecidableEq

namespace Number

def toValue : Number → Value
  | .int n => .int n
  | .float x => .float x

/-- Where a number lies on the extended line; NaN lies nowhere. -/
def position? : Number → Option Binary64.Position
  | .int n => some ⟨0, n * Binary64.unitsPerOne⟩
  | .float x => x.position?

/-- The exact order of two numbers; none if one of them is NaN. -/
def order? : Number → Number → Option Ordering
  | .int m, .int n => some (compare m n)
  | a, b => do
    let p ← a.position?
    let q ← b.position?
    return p.compare q

def isZero : Number → Bool
  | .int n => n == 0
  | .float x => x.isZero

/-- The nearest double of a number; a fault if an integer is beyond all doubles. -/
def toDouble : Number → Except Fault Binary64
  | .int n =>
    match Binary64.ofInt n with
    | .infinite _ => .error .doubleOverflow
    | x => .ok x
  | .float x => .ok x

/-- Arithmetic on doubles, for operands of which one is a double. -/
def onDoubles (op : Binary64 → Binary64 → Binary64) (a b : Number) : Except Fault Number := do
  let x ← a.toDouble
  let y ← b.toDouble
  return .float (op x y)

def add : Number → Number → Except Fault Number
  | .int m, .int n => .ok (.int (m + n))
  | a, b => onDoubles Binary64.add a b

def sub : Number → Number → Except Fault Number
  | .int m, .int n => .ok (.int (m - n))
  | a, b => onDoubles Binary64.sub a b

def mul : Number → Number → Except Fault Number
  | .int m, .int n => .ok (.int (m * n))
  | a, b => onDoubles Binary64.mul a b

/-- The quotient of two integers: that of their magnitudes, with a minus if one of them is negative
and the other is not. -/
def quotient (m n : Int) : Int :=
  let whole := m.natAbs / n.natAbs
  if decide (0 ≤ m) == decide (0 < n) then whole else -whole

/-- The quotient; of two integers, a whole one. Nothing is divided by zero. -/
def div (a b : Number) : Except Fault Number :=
  if b.isZero then .error .divisionByZero
  else match a, b with
    | .int m, .int n => .ok (.int (quotient m n))
    | a, b => onDoubles Binary64.div a b

def neg : Number → Number
  | .int n => .int (-n)
  | .float x => .float x.neg

end Number

namespace Value

def number? : Value → Option Number
  | .int n => some (.int n)
  | .float x => some (.float x)
  | _ => none

end Value

/-- Whether a comparison holds between two numbers; none holds of NaN. -/
def Comparison.holds (c : Comparison) (a b : Number) : Bool :=
  match a.order? b with
  | none => false
  | some order =>
    match c with
    | .less => order.isLT
    | .lessEq => order.isLE
    | .greater => order.isGT
    | .greaterEq => order.isGE

end SmallLisp
