/-
What each primitive does with its arguments, given how a function is called and how a form is evaluated in a
frame. Section 6.1 of the specification.
-/
import SmallLisp.Primitive.Arithmetic
import SmallLisp.Primitive.Cells
import SmallLisp.Primitive.Collections
import SmallLisp.Primitive.Texts

namespace SmallLisp

/-! ## Questions about a single value -/

/-- The answer of a question. A macro is no function here. -/
def Query.holds : Query → Value → Bool
  | .isNil, .nil => true
  | .isTrue, .bool b => b
  | .isFalse, .bool b => !b
  | .isSymbol, .symbol _ => true
  | .isKeyword, .keyword _ => true
  | .isString, .str _ => true
  | .isNumber, .int _ => true
  | .isNumber, .float _ => true
  | .isFunction, v => v.isFunction && !v.isMacro
  | .isMacro, v => v.isMacro
  | .isList, .list .. => true
  | .isVector, .vector .. => true
  | .isSequential, v => v.items?.isSome
  | .isMap, .map .. => true
  | .isCell, .cell _ => true
  | _, _ => false

def Query.run (q : Query) (_ : FrameId) (args : List Value) : Run Value := do
  return .bool (q.holds (← Run.exactlyOne q.name args))

/-! ## Dispatch -/

/-- A way to evaluate a form in a frame. -/
abbrev Evaluator := Value → FrameId → Run Value

/-- A primitive is given the frame from which it is called and its arguments. It passes the frame on where it calls a
function in turn; the primitive `eval` evaluates in the root frame. -/
def Primitive.run (eval : Evaluator) (call : Caller) : Primitive → FrameId → List Value → Run Value
  | .add => Arithmetic.add
  | .subtract => Arithmetic.subtract
  | .multiply => Arithmetic.multiply
  | .divide => Arithmetic.divide
  | .equals => Arithmetic.equals
  | .compare c => Arithmetic.compare c
  | .query q => q.run
  | .symbol => Texts.symbol
  | .keyword => Texts.keyword
  | .list => fun _ args => pure (.ofList args)
  | .vector => fun _ args => pure (.ofVector args)
  | .hashMap => Maps.hashMap
  | .cons => Sequences.cons
  | .concat => Sequences.concat
  | .count => Sequences.count
  | .isEmpty => Sequences.isEmpty
  | .first => Sequences.first
  | .rest => Sequences.rest
  | .nth => Sequences.nth
  | .conj => Sequences.conj
  | .seq => Sequences.seq
  | .vec => Sequences.vec
  | .apply => Calls.apply call
  | .map => Calls.map call
  | .assoc => Maps.assoc
  | .dissoc => Maps.dissoc
  | .get => Maps.get
  | .contains => Maps.contains
  | .keys => Maps.keys
  | .vals => Maps.vals
  | .prStr => Texts.prStr
  | .str => Texts.str
  | .prn => Texts.prn
  | .println => Texts.println
  | .readString => Texts.readString
  | .slurp => Texts.slurp
  | .readline => Texts.readline
  | .atom => Cells.atom
  | .deref => Cells.deref
  | .reset => Cells.reset
  | .swap => Cells.swap call
  | .getMeta => Metadata.get
  | .withMeta => Metadata.set
  | .throw => Calls.throw
  | .timeMs => fun _ _ => do return .int (← Run.readClock)
  | .eval => fun _ args => do eval (← Run.exactlyOne "eval" args) rootFrame

end SmallLisp
