/-
The loop of the evaluator against plain recursion. `evaluateNested` evaluates every form in tail
position by an ordinary nested evaluation and runs the body of a function to its end; main
statement: it ends as the loop does, from every state (`evaluate_iff_evaluateNested`).
-/
import SmallLisp.Evaluation

namespace SmallLisp

/-! ## Plain recursion -/

/-- The value of a special form, with nothing left to go on with. -/
def SpecialForm.value (eval : Evaluator) (expand : Evaluator) (form : SpecialForm) (parts : List Value)
    (frame : FrameId) : Run Value :=
  match form with
  | .define => do
    let (name, form) ← Run.exactlyTwo form.name parts
    let name ← Run.requireSymbol "def!" 0 name
    let value ← eval form frame
    Run.define frame name value
    return value
  | .defineMacro => do
    let (name, form) ← Run.exactlyTwo form.name parts
    let name ← Run.requireSymbol "defmacro!" 0 name
    match (← eval form frame).asMacro? with
    | some value => do
      Run.define frame name value
      return value
    | none => Run.failKind .macroNotFunction
  | .letIn => do
    let (bindings, body) ← Run.exactlyTwo form.name parts
    let row ← Run.requireItems "let*" 0 bindings
    if row.length % 2 = 1 then Run.failKind .oddBindings
    else
      let inner ← Run.newFrame (some frame) []
      bindInTurn eval inner row
      eval body inner
  | .inOrder => do
    let _ ← Run.oneOrMore form.name parts
    evalBody eval frame parts
  | .conditional =>
    match parts with
    | [test, yes] => do
      if (← eval test frame).isTruthy then eval yes frame else return .nil
    | [test, yes, no] => do
      if (← eval test frame).isTruthy then eval yes frame else eval no frame
    | parts => do
      Run.ofExcept (checkCount form.name parts.length 2 (some 3))
      return .nil
  | .function => do
    let (params, body) ← Run.oneOrMore form.name parts
    let params ← Parameters.ofForms (← Run.requireItems "fn*" 0 params)
    return .closure params body frame false .nil
  | .quote => Run.exactlyOne form.name parts
  | .quasiquote => do
    match Template.code (← Run.exactlyOne form.name parts) with
    | .ok code => eval code frame
    | .error cause => Run.fail (.arity cause)
  | .expand => do
    expand (← Run.exactlyOne form.name parts) frame
  | .guarded => do
    let (body, clause) ← Run.exactlyTwo form.name parts
    let (name, handler) ← handlerParts clause
    (eval body frame).handle fun fault => do
      let inner ← Run.newFrame (some frame) [(name, fault.caught)]
      eval handler inner

/-- The value of a call: the head and the arguments are evaluated from the left, then the function
is called and runs to its end. -/
def callValue (eval : Evaluator) (call : Caller) (head : Value) (args : List Value) (frame : FrameId) :
    Run Value := do
  let function ← eval head frame
  let args ← evalEach eval frame args
  call function args frame

/-- The value of a form, by nested evaluations alone. -/
def formValue (steps : Nat) (eval : Evaluator) (form : Value) (frame : FrameId) : Run Value :=
  let call := callFunction eval (steps + 1)
  let expand := expandAll call (steps + 1)
  match form with
  | .list (_ :: _) _ => do
    match ← expand form frame with
    | .list (head :: parts) _ =>
      match SpecialForm.ofHead? head with
      | some special => special.value eval expand parts frame
      | none => callValue eval call head parts frame
    | form => evalPlain eval form frame
  | form => evalPlain eval form frame

/-- Evaluates a form in a frame by plain recursion, nested at most `steps` deep. -/
def evaluateNested : (steps : Nat) → Value → FrameId → Run Value
  | 0, _, _ => Run.halt .steps
  | steps + 1, form, frame => formValue steps (evaluateNested steps) form frame

/-! ## Going on -/

/-- The value that a reduction comes to, if what it leaves is evaluated. -/
def Step.finish (eval : Evaluator) : Step → Run Value
  | .done value => pure value
  | .next form frame => eval form frame

section Finish

variable (eval : Evaluator)

theorem finish_done (value : Value) : Step.finish eval (.done value) = pure value := rfl

theorem finish_next (form : Value) (frame : FrameId) : Step.finish eval (.next form frame) = eval form frame := rfl

theorem finish_return (x : Run Value) : (do return Step.done (← x)) >>= Step.finish eval = x := by
  simp [finish_done]

/-- The last form of a row is evaluated in its place. -/
theorem finish_evalUpToLast (frame : FrameId) : ∀ forms : List Value,
    evalUpToLast eval frame forms >>= Step.finish eval = evalBody eval frame forms
  | [] => by simp only [evalUpToLast, evalBody, pure_bind, finish_done]
  | [form] => by simp only [evalUpToLast, evalBody, pure_bind, finish_next]
  | form :: next :: forms => by
    simp only [evalUpToLast, evalBody, bind_assoc]
    congr 1
    funext _
    exact finish_evalUpToLast frame (next :: forms)

theorem finish_failKind (cause : KindFault) :
    (Run.failKind cause : Run Step) >>= Step.finish eval = Run.failKind cause := rfl

theorem finish_failInspecting (v : Value) (cause : String → KindFault) :
    (Run.failInspecting v cause : Run Step) >>= Step.finish eval = Run.failInspecting v cause := by
  rw [Run.failInspecting, bind_assoc]
  exact bind_congr fun shown => finish_failKind eval (cause shown)

theorem finish_special (expand : Evaluator) (special : SpecialForm) (parts : List Value) (frame : FrameId) :
    special.reduce eval expand parts frame >>= Step.finish eval = special.value eval expand parts frame := by
  cases special with
  | define | function | quote | expand | guarded => simp [SpecialForm.reduce, SpecialForm.value, finish_done]
  | inOrder => simp [SpecialForm.reduce, SpecialForm.value, finish_evalUpToLast]
  | defineMacro =>
    simp only [SpecialForm.reduce, SpecialForm.value, bind_assoc]
    refine bind_congr fun _ => bind_congr fun _ => bind_congr fun value => ?_
    cases value.asMacro? with
    | none => exact finish_failKind eval _
    | some value => simp [finish_done]
  | letIn =>
    simp only [SpecialForm.reduce, SpecialForm.value, bind_assoc]
    refine bind_congr fun _ => bind_congr fun row => ?_
    split
    · exact finish_failKind eval _
    · simp [finish_next]
  | conditional =>
    simp only [SpecialForm.reduce, SpecialForm.value]
    split
    · simp only [bind_assoc, pure_bind]
      refine bind_congr fun test => ?_
      split <;> rfl
    · simp only [bind_assoc, pure_bind]
      refine bind_congr fun test => ?_
      split <;> rfl
    · simp [finish_done]
  | quasiquote =>
    simp only [SpecialForm.reduce, SpecialForm.value, bind_assoc]
    refine bind_congr fun template => ?_
    cases Template.code template with
    | ok code => simp [finish_next]
    | error cause => rfl

/-- A call goes on with the last form of the body that it enters. -/
theorem finish_reduceCall (steps : Nat) (head : Value) (args : List Value) (frame : FrameId) :
    reduceCall eval (callFunction eval (steps + 1)) head args frame >>= Step.finish eval =
      callValue eval (callFunction eval (steps + 1)) head args frame := by
  simp only [reduceCall, callValue, bind_assoc]
  refine bind_congr fun function => bind_congr fun args => ?_
  cases function with
  | closure params body outer =>
    -- the loop stops before the last form of the body, the nested call does not
    simp only [callFunction, callWith, bind_assoc, finish_evalUpToLast]
  | primitive => simp [finish_done]
  | _ => exact finish_failInspecting eval _ _

/-- One reduction, with what it leaves evaluated by a nested evaluation, is the plain recursion. -/
theorem finish_reduce (steps : Nat) (form : Value) (frame : FrameId) :
    reduce steps eval form frame >>= Step.finish eval = formValue steps eval form frame := by
  have hplain : ∀ form, (do return Step.done (← evalPlain eval form frame)) >>= Step.finish eval =
      evalPlain eval form frame := fun form => finish_return eval _
  cases form with
  | list items info =>
    cases items with
    | nil => exact hplain _
    | cons head parts =>
      refine (bind_assoc _ _ _).trans (bind_congr fun expanded => ?_)
      cases expanded with
      | list items info =>
        cases items with
        | nil => exact hplain _
        | cons head parts =>
          dsimp only
          cases SpecialForm.ofHead? head with
          | some special => exact finish_special eval _ special parts frame
          | none => exact finish_reduceCall eval steps head parts frame
      | _ => exact hplain _
  | _ => exact hplain _

end Finish

/-! ## The loop and the recursion -/

/-- The loop goes on where a reduction stops. -/
theorem evaluate_succ (steps : Nat) (form : Value) (frame : FrameId) :
    evaluate (steps + 1) form frame =
      (reduce steps (evaluate steps) form frame >>= Step.finish (evaluate steps) : Run Value) := by
  funext s
  rw [evaluate, Run.bind_apply]
  cases reduce steps (evaluate steps) form frame s with
  | value step s' => cases step <;> rfl
  | fault | halted => rfl

/-- With the same bound, the loop and the recursion come to the same end. -/
theorem evaluate_eq_evaluateNested (steps : Nat) : evaluate steps = evaluateNested steps := by
  induction steps with
  | zero => rfl
  | succ steps ih =>
    funext form frame
    have hnested : formValue steps (evaluate steps) form frame = evaluateNested (steps + 1) form frame := by
      rw [ih]; rfl
    exact (evaluate_succ steps form frame).trans ((finish_reduce (evaluate steps) steps form frame).trans hnested)

/-- From every state the loop and the recursion end alike: with the same value or the same fault,
and in the same state. -/
theorem evaluate_iff_evaluateNested (form : Value) (frame : FrameId) (s : State) (o : Outcome Value) :
    (∃ steps, evaluate steps form frame s = o) ↔ ∃ steps, evaluateNested steps form frame s = o := by
  simp only [evaluate_eq_evaluateNested]

end SmallLisp
