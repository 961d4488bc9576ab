/-
Arithmetic, equality and order. Every operand is checked to be a number before anything is computed. Section
6.1 of the specification.
-/
import SmallLisp.Shape

namespace SmallLisp.Arithmetic

/-- Combines numbers from the left. -/
def foldNumbers (op : Number → Number → Except Fault Number) :
    Number → List Number → Except Fault Number
  | total, [] => .ok total
  | total, n :: ns => do foldNumbers op (← op total n) ns

/-- The sum of all arguments, starting from the integer 0. -/
def add (_ : FrameId) (args : List Value) : Run Value := do
  let ns ← Run.numbers "+" args
  Number.toValue <$> Run.ofExcept (foldNumbers Number.add (.int 0) ns)

/-- The first argument less all others; of a single one, its negation. -/
def subtract (_ : FrameId) (args : List Value) : Run Value := do
  let _ ← Run.oneOrMore "-" args
  match ← Run.numbers "-" args with
  | [] => Run.fail (.arity (.tooFew "-"))
  | [n] => pure n.neg.toValue
  | n :: ns => Number.toValue <$> Run.ofExcept (foldNumbers Number.sub n ns)

/-- The product of all arguments, starting from the integer 1. -/
def multiply (_ : FrameId) (args : List Value) : Run Value := do
  let ns ← Run.numbers "*" args
  Number.toValue <$> Run.ofExcept (foldNumbers Number.mul (.int 1) ns)

/-- The first argument divided by all others; of a single one, its reciprocal. -/
def divide (_ : FrameId) (args : List Value) : Run Value := do
  let _ ← Run.oneOrMore "/" args
  match ← Run.numbers "/" args with
  | [] => Run.fail (.arity (.tooFew "/"))
  | [n] => Number.toValue <$> Run.ofExcept (Number.div (.int 1) n)
  | n :: ns => Number.toValue <$> Run.ofExcept (foldNumbers Number.div n ns)

/-- Whether all arguments equal the first. -/
def equals (_ : FrameId) (args : List Value) : Run Value := do
  let (first, others) ← Run.oneOrMore "=" args
  Run.ask fun s => .ok (.bool (others.all fun other => first.equal s.cells other))

/-- Whether a relation holds between all neighbours. -/
def holdsBetweenNeighbours (test : Number → Number → Bool) : List Number → Bool
  | a :: b :: ns => test a b && holdsBetweenNeighbours test (b :: ns)
  | _ => true

def compare (c : Comparison) (_ : FrameId) (args : List Value) : Run Value := do
  let _ ← Run.oneOrMore c.name args
  let ns ← Run.numbers c.name args
  pure (.bool (holdsBetweenNeighbours c.holds ns))

end SmallLisp.Arithmetic
