/-
Evaluation. `evaluate` is a loop over a form and a frame: one `reduce` either ends with a value or names the
form and the frame to go on with, which is how tail positions take no room. All other evaluations are nested
ones, through the evaluator that `reduce` is given. The number of steps that is passed down bounds the nesting
and the loop together. Section 4.3 of the specification.
-/
import SmallLisp.Parameters
import SmallLisp.Primitive.Dispatch
import SmallLisp.SpecialForm

namespace SmallLisp

/-- What one reduction of a form comes to. -/
inductive Step where
  | done (value : Value)
  | next (form : Value) (frame : FrameId)

/-! ## Rows of forms -/

/-- The values of forms, from the left. -/
def evalEach (eval : Evaluator) (frame : FrameId) : List Value → Run (List Value)
  | [] => pure []
  | form :: forms => do
    let value ← eval form frame
    let values ← evalEach eval frame forms
    pure (value :: values)

/-- The entries that a map of forms stands for; a key is checked before its value is evaluated. -/
def evalEntries (eval : Evaluator) (frame : FrameId) : List (Value × Value) → Run Entries
  | [] => pure []
  | (keyForm, valueForm) :: forms => do
    let key ← eval keyForm frame
    Run.requireKey "hash-map literal" key
    let value ← eval valueForm frame
    let entries ← evalEntries eval frame forms
    pure ((key, value) :: entries)

/-- Evaluates all forms but the last, which is left to go on with. Of no forms the value is nil. -/
def evalUpToLast (eval : Evaluator) (frame : FrameId) : List Value → Run Step
  | [] => pure (.done .nil)
  | [form] => pure (.next form frame)
  | form :: forms => do
    let _ ← eval form frame
    evalUpToLast eval frame forms

/-- Evaluates all forms; the value is that of the last, or nil. -/
def evalBody (eval : Evaluator) (frame : FrameId) : List Value → Run Value
  | [] => pure .nil
  | [form] => eval form frame
  | form :: forms => do
    let _ ← eval form frame
    evalBody eval frame forms

/-! ## Calls -/

/-- The frame of a call: inside the frame of the function, with its parameters bound. -/
def enter (params : Parameters) (outer : FrameId) (args : List Value) : Run FrameId := do
  Run.newFrame (some outer) (← params.bind args)

/-- How a primitive is run, given how it calls functions. -/
abbrev Runner := Caller → Primitive → FrameId → List Value → Run Value

/-- Calls a function from a frame and evaluates its body to the end. Primitives that call functions in turn use
up one of `steps` each. -/
def callWith (eval : Evaluator) (run : Runner) : (steps : Nat) → Caller
  | 0, _, _, _ => Run.halt .steps
  | _ + 1, .closure params body outer _ _, args, _ => do
    evalBody eval (← enter params outer args) body
  | steps + 1, .primitive p _ _, args, frame => run (callWith eval run steps) p frame args
  | _ + 1, v, _, _ => Run.failInspecting v .notApplicable

/-- Calls a function with one evaluator for all that it evaluates; `apply_function` in the specification. -/
def callFunction (eval : Evaluator) : (steps : Nat) → Caller := callWith eval (Primitive.run eval)

/-! ## Macros -/

/-- The macro that a form calls, and the argument forms. -/
def macroCall? (s : State) (frame : FrameId) : Value → Option (Value × List Value)
  | .list (.symbol name :: args) _ =>
    match s.get? frame name with
    | some v => if v.isMacro then some (v, args) else none
    | none => none
  | _ => none

/-- What the macro that a form calls makes of it; a form that calls none is left as it is. -/
def expandOnce (call : Caller) (form : Value) (frame : FrameId) : Run Value := fun s =>
  match macroCall? s frame form with
  | some (function, args) => call function args frame s
  | none => .value form s

/-- Expands a form until it calls no macro, at most `steps` times; `macroexpand` in the specification. -/
def expandAll (call : Caller) : (steps : Nat) → Value → FrameId → Run Value
  | 0, _, _ => Run.halt .steps
  | steps + 1, form, frame => fun s =>
    match macroCall? s frame form with
    | none => .value form s
    | some (function, args) => (do expandAll call steps (← call function args frame) frame : Run Value) s

/-! ## Special forms -/

namespace SpecialForm

/-- Binds names in a frame to the values of forms, each evaluated after the names before it are
bound. The row alternates between both. -/
def bindInTurn (eval : Evaluator) (frame : FrameId) : List Value → Run Unit
  | name :: form :: row => do
    match name with
    | .symbol name => do
      Run.define frame name (← eval form frame)
      bindInTurn eval frame row
    | name => Run.failInspecting name .bindingNotSymbol
  | _ => pure ()

/-- The name and the handler of the second part of a guarded form. -/
def handlerParts (clause : Value) : Run (String × Value) :=
  match clause.argumentsOf? "catch*" with
  | none => Run.failKind .handlerExpected
  | some args => do
    let (name, handler) ← Run.exactlyTwo "catch*" args
    return (← Run.requireSymbol "catch*" 0 name, handler)

/-- Reduces a special form, given its parts after the head. The counts and the shapes of the parts
are checked before anything is evaluated. -/
def reduce (eval : Evaluator) (expand : Evaluator) (form : SpecialForm) (parts : List Value)
    (frame : FrameId) : Run Step :=
  match form with
  | .define => do
    let (name, form) ← Run.exactlyTwo form.name parts
    let name ← Run.requireSymbol "def!" 0 name
    let value ← eval form frame
    Run.define frame name value
    return .done value
  | .defineMacro => do
    let (name, form) ← Run.exactlyTwo form.name parts
    let name ← Run.requireSymbol "defmacro!" 0 name
    match (← eval form frame).asMacro? with
    | some value => do
      Run.define frame name value
      return .done value
    | none => Run.failKind .macroNotFunction
  | .letIn => do
    let (bindings, body) ← Run.exactlyTwo form.name parts
    let row ← Run.requireItems "let*" 0 bindings
    if row.length % 2 = 1 then Run.failKind .oddBindings
    else
      let inner ← Run.newFrame (some frame) []
      bindInTurn eval inner row
      return .next body inner
  | .inOrder => do
    let _ ← Run.oneOrMore form.name parts
    evalUpToLast eval frame parts
  | .conditional =>
    match parts with
    | [test, yes] => do
      return if (← eval test frame).isTruthy then .next yes frame else .done .nil
    | [test, yes, no] => do
      return if (← eval test frame).isTruthy then .next yes frame else .next no frame
    | parts => do
      Run.ofExcept (checkCount form.name parts.length 2 (some 3))
      return .done .nil
  | .function => do
    let (params, body) ← Run.oneOrMore form.name parts
    let params ← Parameters.ofForms (← Run.requireItems "fn*" 0 params)
    return .done (.closure params body frame false .nil)
  | .quote => do
    return .done (← Run.exactlyOne form.name parts)
  | .quasiquote => do
    match Template.code (← Run.exactlyOne form.name parts) with
    | .ok code => return .next code frame
    | .error cause => Run.fail (.arity cause)
  | .expand => do
    return .done (← expand (← Run.exactlyOne form.name parts) frame)
  | .guarded => do
    let (body, clause) ← Run.exactlyTwo form.name parts
    let (name, handler) ← handlerParts clause
    let value ← (eval body frame).handle fun fault => do
      let inner ← Run.newFrame (some frame) [(name, fault.caught)]
      eval handler inner
    return .done value

end SpecialForm

/-! ## The loop -/

/-- The value of a form that is no list: a symbol is looked up, a vector and a map are evaluated
part by part, and everything else stands for itself. -/
def evalPlain (eval : Evaluator) (form : Value) (frame : FrameId) : Run Value :=
  match form with
  | .symbol name => Run.lookup frame name
  | .vector items _ => do return .ofVector (← evalEach eval frame items)
  | .map entries _ => do return .ofEntries (Entries.ofList (← evalEntries eval frame entries))
  | form => pure form

/-- Reduces a call: the head and the arguments are evaluated from the left, then the function is
entered, up to the last form of its body. -/
def reduceCall (eval : Evaluator) (call : Caller) (head : Value) (args : List Value)
    (frame : FrameId) : Run Step := do
  let function ← eval head frame
  let args ← evalEach eval frame args
  match function with
  | .closure params body outer _ _ => do evalUpToLast eval (← enter params outer args) body
  | .primitive .. => return .done (← call function args frame)
  | v => Run.failInspecting v .notApplicable

/-- Reduces a form once, given how the forms that are no lists are evaluated and how primitives are run. Macros
are expanded first; what they leave is a special form, a call, or a form that is no list. -/
def reduceWith (steps : Nat) (eval plain : Evaluator) (run : Runner) (form : Value) (frame : FrameId) : Run Step :=
  let call := callWith eval run (steps + 1)
  let expand := expandAll call (steps + 1)
  match form with
  | .list (_ :: _) _ => do
    match ← expand form frame with
    | .list (head :: parts) _ =>
      match SpecialForm.ofHead? head with
      | some special => special.reduce eval expand parts frame
      | none => reduceCall eval call head parts frame
    | form => return .done (← plain form frame)
  | form => do return .done (← plain form frame)

/-- Reduces a form once with one evaluator for all that it evaluates. -/
def reduce (steps : Nat) (eval : Evaluator) : Value → FrameId → Run Step :=
  reduceWith steps eval (evalPlain eval) (Primitive.run eval)

/-- Evaluates a form in a frame, in at most `steps` reductions; nested ones have one less. -/
def evaluate : (steps : Nat) → Value → FrameId → State → Outcome Value
  | 0, _, _, s => .halted .steps s
  | steps + 1, form, frame, s =>
    match reduce steps (evaluate steps) form frame s with
    | .value (.done value) s => .value value s
    | .value (.next form frame) s => evaluate steps form frame s
    | .fault fault s => .fault fault s
    | .halted need s => .halted need s

end SmallLisp
