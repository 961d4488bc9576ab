/-
What evaluation hands on. By its laws, a judgement passes from what an evaluator is given to what it makes of that. This
is shown here, once for each part of the evaluator; main statement: evaluators that differ in how they run primitives,
or in how they evaluate what is no list, pass on whatever these pass on (`Judgement.evaluateWith_holds`).
-/
import SmallLisp.Proofs.Evaluation.Nested
import SmallLisp.Proofs.Run.Judgement

namespace SmallLisp

/-! ## Evaluators -/

/-- An evaluator with its own ways to evaluate what is no list and to run primitives, given how to evaluate. -/
def evaluateWith (plain : Evaluator → Evaluator) (run : Evaluator → Runner) : (steps : Nat) → Evaluator
  | 0, _, _ => Run.halt .steps
  | steps + 1, form, frame => do
    let eval := evaluateWith plain run steps
    (← reduceWith steps eval (plain eval) (run eval) form frame).finish eval

theorem evaluateWith_eq_evaluate : ∀ steps : Nat, evaluateWith evalPlain Primitive.run steps = evaluate steps
  | 0 => rfl
  | steps + 1 => by
    funext form frame
    rw [evaluate_succ, evaluateWith, evaluateWith_eq_evaluate steps]
    rfl

/-! ## Handlers and macros -/

/-- The macro that a form calls, if it calls one. -/
def Run.calledMacro (frame : FrameId) (form : Value) : Run (Option (Value × List Value)) :=
  fun s => .value (macroCall? s frame form) s

theorem Run.lookup_eq (frame : FrameId) (name : String) : Run.lookup frame name =
    Run.getting frame name >>= fun found => found.elim (Run.fail (.unbound name)) pure := by
  funext s
  rw [Run.bind_apply]
  unfold Run.lookup Run.getting
  dsimp only
  cases s.get? frame name <;> rfl

theorem Run.calledMacro_symbol (frame : FrameId) (name : String) (args : List Value) (info : Value) :
    Run.calledMacro frame (.list (.symbol name :: args) info) = Run.getting frame name >>= fun found =>
      pure (found.bind fun value => if value.isMacro then some (value, args) else none) := by
  funext s
  rw [Run.bind_apply]
  unfold Run.calledMacro Run.getting macroCall?
  dsimp only
  cases s.get? frame name <;> rfl

theorem expandAll_succ (call : Caller) (steps : Nat) (form : Value) (frame : FrameId) :
    expandAll call (steps + 1) form frame = Run.calledMacro frame form >>= fun called =>
      called.elim (pure form) fun called => call called.1 called.2 frame >>= fun expanded =>
        expandAll call steps expanded frame := by
  funext s
  rw [Run.bind_apply, expandAll]
  unfold Run.calledMacro
  dsimp only
  cases macroCall? s frame form <;> rfl

/-- The parts of a handler are found alike. -/
theorem Run.Checks.handlerParts {A : Agreement} {n : Nat} {v w : Value} (h : A.agree n v w) :
    Checks (fun a b => a.1 = b.1 ∧ A.agree n a.2 b.2) (SpecialForm.handlerParts v) (SpecialForm.handlerParts w) := by
  have hargs := Agreement.argumentsOf? h "catch*"
  unfold SpecialForm.handlerParts
  generalize v.argumentsOf? "catch*" = args at hargs
  generalize w.argumentsOf? "catch*" = args' at hargs
  cases hargs with
  | none => exact .kind _
  | some hargs =>
    refine (exactlyTwo _ hargs).bind ?_
    rintro ⟨name, handler⟩ ⟨name', handler'⟩ ⟨hname, hhandler⟩
    refine (requireSymbol hname _ _).bind ?_
    rintro name _ rfl
    exact .passed ⟨rfl, hhandler⟩

namespace Judgement

open Run.Checks (exactlyOne exactlyTwo oneOrMore requireSymbol requireItems)

variable (J : Judgement) {n : Nat} {frame : FrameId}

/-- Whether the judgement holds of what evaluators make of forms that agree. -/
def Evaluates (eval eval' : Evaluator) : Prop :=
  ∀ (n : Nat) {form form' : Value} {frame : FrameId}, J.agree n form form' → J.within n frame →
    J.Holds n (eval form frame) (eval' form' frame) J.agree

/-- The same for expanders, which a frame is only passed on by. -/
def Expands (expand expand' : Evaluator) : Prop :=
  ∀ (n : Nat) {form form' : Value} (frame : FrameId), J.agree n form form' →
    J.Holds n (expand form frame) (expand' form' frame) J.agree

/-- Whether the judgement holds of calls of functions that agree, with arguments that agree. -/
def Calls (call call' : Caller) : Prop :=
  ∀ (n : Nat) {function function' : Value} {args args' : List Value} (frame : FrameId), J.agree n function function' →
    J.Each n args args' → J.Holds n (call function args frame) (call' function' args' frame) J.agree

/-- Whether the judgement holds of primitives, if it holds of the calls that they make. -/
def Runs (run run' : Runner) : Prop :=
  ∀ {call call' : Caller}, J.Calls call call' → ∀ (n : Nat) (p : Primitive) {isMacro : Bool} {info info' : Value}
    {args args' : List Value} (frame : FrameId), J.agree n (.primitive p isMacro info) (.primitive p isMacro info') →
    J.Each n args args' → J.Holds n (run call p frame args) (run' call' p frame args') J.agree

/-! ## Names and macros -/

theorem lookup_holds (frame : FrameId) (name : String) :
    J.Holds n (Run.lookup frame name) (Run.lookup frame name) J.agree := by
  rw [Run.lookup_eq]
  refine J.bind (J.getting frame name) fun m _ found found' hfound => ?_
  cases hfound with
  | some hv => exact J.pure hv
  | none => exact J.failUnbound name _

theorem calledMacro_holds (frame : FrameId) {form form' : Value} (hform : J.agree n form form') :
    J.Holds n (Run.calledMacro frame form) (Run.calledMacro frame form') fun m =>
      Option.Rel fun a b => J.agree m a.1 b.1 ∧ J.Each m a.2 b.2 := by
  cases J.corresponds hform with
  | list hitems =>
    cases hitems with
    | nil => exact J.pure .none
    | @cons head head' args args' hhead hargs =>
      cases J.corresponds hhead with
      | symbol name =>
        rw [Run.calledMacro_symbol, Run.calledMacro_symbol]
        refine J.bind (J.getting frame name) fun m hnm found found' hfound => ?_
        cases hfound with
        | none => exact J.pure .none
        | some hv =>
          rw [Option.bind_some, Option.bind_some, Agreement.isMacro_eq hv]
          split
          · exact J.pure (.some ⟨hv, Agreement.Each.mono hnm hargs⟩)
          · exact J.pure .none
      | _ => exact J.pure .none
  | _ => exact J.pure .none

/-! ## Rows of forms -/

/-- Steps that agree. -/
inductive StepAgree (n : Nat) : Step → Step → Prop where
  | done {v w : Value} : J.agree n v w → StepAgree n (.done v) (.done w)
  | next {form form' : Value} {frame : FrameId} : J.agree n form form' → J.within n frame →
    StepAgree n (.next form frame) (.next form' frame)

section Given

variable {J} {eval eval' plain plain' expand expand' : Evaluator} {call call' : Caller} {run run' : Runner}
  (h : J.Evaluates eval eval')
include h

theorem evalEach_holds : ∀ (n : Nat) {forms forms' : List Value}, J.Each n forms forms' → J.within n frame →
    J.Holds n (evalEach eval frame forms) (evalEach eval' frame forms') J.Each
  | _, [], _, .nil, _ => J.pure .nil
  | n, _ :: _, _, .cons hform hforms, hframe =>
    J.bind (h n hform hframe) fun m hnm _ _ hv =>
      J.bind (evalEach_holds m (Agreement.Each.mono hnm hforms) (J.within_mono hnm hframe)) fun _ hmk _ _ hvs =>
        J.pure (.cons (J.mono hmk hv) hvs)

theorem evalEntries_holds : ∀ (n : Nat) {forms forms' : List (Value × Value)},
    List.Forall₂ (fun a b => J.agree n a.1 b.1 ∧ J.agree n a.2 b.2) forms forms' → J.within n frame →
    J.Holds n (evalEntries eval frame forms) (evalEntries eval' frame forms') fun m =>
      List.Forall₂ fun a b => J.key m a.1 b.1 ∧ J.agree m a.2 b.2
  | _, [], _, .nil, _ => J.pure .nil
  | n, (_, _) :: _, (_, _) :: _, .cons ⟨hkey, hvalue⟩ hforms, hframe =>
    J.bind (h n hkey hframe) fun _ hnm _ _ hk => J.bind (J.requireKey _ hk) fun k hmk _ _ haccepted =>
      J.bind (h k (J.mono (Nat.le_trans hnm hmk) hvalue) (J.within_mono (Nat.le_trans hnm hmk) hframe))
        fun l hkl _ _ hv =>
        have hnl := Nat.le_trans (Nat.le_trans hnm hmk) hkl
        J.bind (evalEntries_holds l (hforms.imp fun _ _ h => ⟨J.mono hnl h.1, J.mono hnl h.2⟩)
          (J.within_mono hnl hframe))
          fun _ hlast _ _ hentries => J.pure (.cons ⟨J.key_mono (Nat.le_trans hkl hlast) haccepted,
            J.mono hlast hv⟩ hentries)

theorem evalUpToLast_holds : ∀ (n : Nat) {forms forms' : List Value}, J.Each n forms forms' → J.within n frame →
    J.Holds n (evalUpToLast eval frame forms) (evalUpToLast eval' frame forms') J.StepAgree
  | _, [], _, .nil, _ => J.pure (.done J.nil)
  | _, [_], _, .cons hform .nil, hframe => J.pure (.next hform hframe)
  | n, _ :: _ :: _, _ :: _ :: _, .cons hform hforms, hframe =>
    J.bind (h n hform hframe) fun m hnm _ _ _ =>
      evalUpToLast_holds m (Agreement.Each.mono hnm hforms) (J.within_mono hnm hframe)

theorem evalBody_holds : ∀ (n : Nat) {forms forms' : List Value}, J.Each n forms forms' → J.within n frame →
    J.Holds n (evalBody eval frame forms) (evalBody eval' frame forms') J.agree
  | _, [], _, .nil, _ => J.pure J.nil
  | n, [_], _, .cons hform .nil, hframe => h n hform hframe
  | n, _ :: _ :: _, _ :: _ :: _, .cons hform hforms, hframe =>
    J.bind (h n hform hframe) fun m hnm _ _ _ =>
      evalBody_holds m (Agreement.Each.mono hnm hforms) (J.within_mono hnm hframe)

theorem evalPlain_holds : J.Evaluates (evalPlain eval) (evalPlain eval') := by
  intro n form form' frame hform hframe
  cases J.corresponds hform with
  | symbol name => exact J.lookup_holds frame name
  | vector hitems => exact J.bind (evalEach_holds h n hitems hframe) fun _ _ _ _ hvs => J.pure (J.vector hvs)
  | map hforms => exact J.bind (evalEntries_holds h n hforms hframe) fun _ _ _ _ hentries => J.pure (J.map hentries)
  | _ => exact J.pure hform

/-! ## Calls and macros -/

omit h in
theorem enter_holds (params : Parameters) {outer : FrameId} (houter : J.refers n outer) {args args' : List Value}
    (hargs : J.Each n args args') :
    J.Holds n (enter params outer args) (enter params outer args') fun m a b => a = b ∧ J.within m a :=
  J.bind (J.arguments params hargs) fun _ hnm _ _ hbindings => J.newFrame (J.refers_mono hnm houter) hbindings

theorem callWith_succ_holds (hr : J.Runs run run') {m n : Nat}
    (hc : J.Calls (callWith eval run m) (callWith eval' run' n)) :
    J.Calls (callWith eval run (m + 1)) (callWith eval' run' (n + 1)) := by
  intro k function function' args args' frame hfunction hargs
  cases J.corresponds hfunction with
  | closure params isMacro hbody hframe =>
    refine J.bind (enter_holds params hframe hargs) ?_
    rintro l hkl inner _ ⟨rfl, hinner⟩
    exact evalBody_holds h l (Agreement.Each.mono hkl hbody) hinner
  | primitive p => exact hr hc k p frame hfunction hargs
  | _ => exact J.failInspecting _ _ hfunction

theorem callWith_holds (hr : J.Runs run run') : ∀ steps : Nat,
    J.Calls (callWith eval run steps) (callWith eval' run' steps)
  | 0 => fun _ _ _ _ _ _ _ _ => J.halt _
  | steps + 1 => callWith_succ_holds h hr (callWith_holds hr steps)

omit h in
theorem expandAll_succ_holds (hc : J.Calls call call') {m n : Nat}
    (hx : J.Expands (expandAll call m) (expandAll call' n)) :
    J.Expands (expandAll call (m + 1)) (expandAll call' (n + 1)) := by
  intro k form form' frame hform
  rw [expandAll_succ, expandAll_succ]
  refine J.bind (J.calledMacro_holds frame hform) fun l hkl called called' hcalled => ?_
  cases hcalled with
  | none => exact J.pure (J.mono hkl hform)
  | some hcall =>
    exact J.bind (hc l frame hcall.1 hcall.2) fun i hli _ _ hexpanded => hx i frame hexpanded

omit h in
theorem expandAll_holds (hc : J.Calls call call') : ∀ steps : Nat,
    J.Expands (expandAll call steps) (expandAll call' steps)
  | 0 => fun _ _ _ _ _ => J.halt _
  | steps + 1 => expandAll_succ_holds hc (expandAll_holds hc steps)

/-! ## Special forms -/

theorem bindInTurn_holds : ∀ (n : Nat) {row row' : List Value}, J.Each n row row' → J.within n frame →
    J.Holds n (SpecialForm.bindInTurn eval frame row) (SpecialForm.bindInTurn eval' frame row') fun _ _ _ => True
  | _, [], _, .nil, _ => J.pure trivial
  | _, [_], _, .cons _ .nil, _ => J.pure trivial
  | n, name :: _ :: _, _ :: _ :: _, .cons hname (.cons hform hrow), hframe => by
    unfold SpecialForm.bindInTurn
    cases J.corresponds hname with
    | symbol name =>
      refine J.bind (h n hform hframe) fun m hnm _ _ hv => ?_
      refine J.bind (J.define name (J.within_mono hnm hframe) hv) fun k hmk _ _ _ => ?_
      exact bindInTurn_holds k (Agreement.Each.mono (Nat.le_trans hnm hmk) hrow)
        (J.within_mono (Nat.le_trans hnm hmk) hframe)
    | _ => exact J.failInspecting _ _ hname

/-- Which branch is taken depends on whether a value is truthy, and how many parts there are. -/
theorem conditional_holds {parts parts' : List Value} (hparts : J.Each n parts parts') (hframe : J.within n frame) :
    J.Holds n (SpecialForm.conditional.reduce eval expand parts frame)
      (SpecialForm.conditional.reduce eval' expand' parts' frame) J.StepAgree := by
  have hcount : ∀ count : Nat, J.Holds n
      (do Run.ofExcept (checkCount "if" count 2 (some 3)); return .done .nil : Run Step)
      (do Run.ofExcept (checkCount "if" count 2 (some 3)); return .done .nil) J.StepAgree := fun count =>
    J.check (.count _ _ _ _) fun _ _ _ => J.pure (.done J.nil)
  have hlength := hparts.length_eq
  unfold SpecialForm.reduce
  dsimp only
  match parts, parts', hparts with
  | [], _, .nil => exact hcount 0
  | [_], _, .cons _ .nil => exact hcount 1
  | [test, yes], _, .cons htest (.cons hyes .nil) =>
    refine J.bind (h n htest hframe) fun m hnm v w hvw => ?_
    rw [Agreement.isTruthy_eq hvw]
    split
    · exact J.pure (.next (J.mono hnm hyes) (J.within_mono hnm hframe))
    · exact J.pure (.done J.nil)
  | [test, yes, no], _, .cons htest (.cons hyes (.cons hno .nil)) =>
    refine J.bind (h n htest hframe) fun m hnm v w hvw => ?_
    rw [Agreement.isTruthy_eq hvw]
    split
    · exact J.pure (.next (J.mono hnm hyes) (J.within_mono hnm hframe))
    · exact J.pure (.next (J.mono hnm hno) (J.within_mono hnm hframe))
  | _ :: _ :: _ :: _ :: parts, _ :: _ :: _ :: _ :: parts', .cons _ (.cons _ (.cons _ (.cons _ _))) =>
    dsimp only
    rw [hlength]
    exact hcount _

theorem letIn_holds {parts parts' : List Value} (hparts : J.Each n parts parts') (hframe : J.within n frame) :
    J.Holds n (SpecialForm.letIn.reduce eval expand parts frame) (SpecialForm.letIn.reduce eval' expand' parts' frame)
      J.StepAgree := by
  refine J.check (exactlyTwo _ hparts) ?_
  rintro ⟨bindings, body⟩ ⟨bindings', body'⟩ ⟨hbindings, hbody⟩
  refine J.check (requireItems hbindings _ _) fun row row' hrow => ?_
  rw [hrow.length_eq]
  split
  · exact J.failKind _ _
  · refine J.bind (J.newFrame (J.refers_of_within hframe) J.bound_nil) ?_
    rintro m hnm inner _ ⟨rfl, hinner⟩
    exact J.bind (bindInTurn_holds h m (Agreement.Each.mono hnm hrow) hinner) fun k hmk _ _ _ =>
      J.pure (.next (J.mono (Nat.le_trans hnm hmk) hbody) (J.within_mono hmk hinner))

theorem guarded_holds {parts parts' : List Value} (hparts : J.Each n parts parts') (hframe : J.within n frame) :
    J.Holds n (SpecialForm.guarded.reduce eval expand parts frame)
      (SpecialForm.guarded.reduce eval' expand' parts' frame) J.StepAgree := by
  refine J.check (exactlyTwo _ hparts) ?_
  rintro ⟨body, clause⟩ ⟨body', clause'⟩ ⟨hbody, hclause⟩
  refine J.check (.handlerParts hclause) ?_
  rintro ⟨name, handler⟩ ⟨_, handler'⟩ ⟨rfl, hhandler⟩
  refine J.bind (P := J.agree) (J.handle (h n hbody hframe) fun m hnm fault fault' hfault => ?_)
    fun _ _ _ _ hv => J.pure (.done hv)
  refine J.bind (J.newFrame (J.refers_of_within (J.within_mono hnm hframe)) (J.bound_single name hfault)) ?_
  rintro k hmk inner _ ⟨rfl, hinner⟩
  exact h k (J.mono (Nat.le_trans hnm hmk) hhandler) hinner

/-- What the ten special forms make of evaluators and expanders. -/
theorem special_holds (hx : J.Expands expand expand') (special : SpecialForm) {parts parts' : List Value}
    (hparts : J.Each n parts parts') (hframe : J.within n frame) :
    J.Holds n (special.reduce eval expand parts frame) (special.reduce eval' expand' parts' frame) J.StepAgree := by
  cases special with
  | define =>
    refine J.check (exactlyTwo _ hparts) ?_
    rintro ⟨name, form⟩ ⟨name', form'⟩ ⟨hname, hform⟩
    refine J.check (requireSymbol hname _ _) ?_
    rintro name _ rfl
    refine J.bind (h n hform hframe) fun m hnm _ _ hv => ?_
    exact J.bind (J.define name (J.within_mono hnm hframe) hv) fun _ hmk _ _ _ => J.pure (.done (J.mono hmk hv))
  | defineMacro =>
    refine J.check (exactlyTwo _ hparts) ?_
    rintro ⟨name, form⟩ ⟨name', form'⟩ ⟨hname, hform⟩
    refine J.check (requireSymbol hname _ _) ?_
    rintro name _ rfl
    refine J.bind (h n hform hframe) fun m hnm v w hvw => ?_
    have hvalue := J.asMacro? hvw
    generalize v.asMacro? = value at hvalue
    generalize w.asMacro? = value' at hvalue
    cases hvalue with
    | some hv =>
      exact J.bind (J.define name (J.within_mono hnm hframe) hv) fun _ hmk _ _ _ => J.pure (.done (J.mono hmk hv))
    | none => exact J.failKind _ _
  | letIn => exact letIn_holds h hparts hframe
  | inOrder => exact J.check (oneOrMore _ hparts) fun _ _ _ => evalUpToLast_holds h n hparts hframe
  | conditional => exact conditional_holds h hparts hframe
  | function =>
    refine J.check (oneOrMore _ hparts) ?_
    rintro ⟨params, body⟩ ⟨params', body'⟩ ⟨hparams, hbody⟩
    refine J.check (requireItems hparams _ _) fun _ _ hforms => J.bind (J.parameters hforms) ?_
    rintro m hnm params _ rfl
    exact J.pure (.done (J.closure params (Agreement.Each.mono hnm hbody)
      (J.refers_of_within (J.within_mono hnm hframe))))
  | quote => exact J.check (exactlyOne _ hparts) fun _ _ hform => J.pure (.done hform)
  | quasiquote =>
    refine J.check (exactlyOne _ hparts) fun template template' htemplate => ?_
    have hcode := J.code htemplate
    generalize Template.code template = code at hcode
    generalize Template.code template' = code' at hcode
    cases hcode with
    | ok hcode => exact J.pure (.next hcode hframe)
    | error cause => exact J.failArity _ _
  | expand =>
    exact J.check (exactlyOne _ hparts) fun _ _ hform => J.bind (hx n frame hform) fun _ _ _ _ hv => J.pure (.done hv)
  | guarded => exact guarded_holds h hparts hframe

/-! ## Reductions -/

theorem reduceCall_holds (hc : J.Calls call call') {head head' : Value} {args args' : List Value}
    (hhead : J.agree n head head') (hargs : J.Each n args args') (hframe : J.within n frame) :
    J.Holds n (reduceCall eval call head args frame) (reduceCall eval' call' head' args' frame) J.StepAgree := by
  refine J.bind (h n hhead hframe) fun m hnm function function' hfunction => ?_
  refine J.bind (evalEach_holds h m (Agreement.Each.mono hnm hargs) (J.within_mono hnm hframe))
    fun k hmk _ _ hvalues => ?_
  have hfunction := J.mono hmk hfunction
  cases J.corresponds hfunction with
  | closure params isMacro hbody houter =>
    refine J.bind (enter_holds params houter hvalues) ?_
    rintro l hkl inner _ ⟨rfl, hinner⟩
    exact evalUpToLast_holds h l (Agreement.Each.mono hkl hbody) hinner
  | primitive => exact J.bind (hc k frame hfunction hvalues) fun _ _ _ _ hv => J.pure (.done hv)
  | _ => exact J.failInspecting _ _ hfunction

/-- A reduction hands on what holds of the evaluators, of the calls and of the expansions in it. -/
theorem reduceWith_of_calls {i j : Nat} (hp : J.Evaluates plain plain')
    (hc : J.Calls (callWith eval run (i + 1)) (callWith eval' run' (j + 1)))
    (hx : J.Expands (expandAll (callWith eval run (i + 1)) (i + 1)) (expandAll (callWith eval' run' (j + 1)) (j + 1)))
    {form form' : Value} (hform : J.agree n form form') (hframe : J.within n frame) :
    J.Holds n (reduceWith i eval plain run form frame) (reduceWith j eval' plain' run' form' frame) J.StepAgree := by
  have hplain : ∀ (m : Nat) {form form' : Value}, J.agree m form form' → J.within m frame →
      J.Holds m (do return Step.done (← plain form frame)) (do return Step.done (← plain' form' frame)) J.StepAgree :=
    fun m _ _ hform hframe => J.bind (hp m hform hframe) fun _ _ _ _ hv => J.pure (.done hv)
  unfold reduceWith
  dsimp only
  cases J.corresponds hform with
  | list hitems =>
    cases hitems with
    | nil => exact hplain n hform hframe
    | cons =>
      refine J.bind (hx n frame hform) fun m hnm _ _ hexpanded => ?_
      have hframe := J.within_mono hnm hframe
      cases J.corresponds hexpanded with
      | list hitems =>
        cases hitems with
        | nil => exact hplain m hexpanded hframe
        | cons hhead hparts =>
          dsimp only
          rw [Agreement.ofHead?_eq hhead]
          split
          · exact special_holds h hx _ hparts hframe
          · exact reduceCall_holds h hc hhead hparts hframe
      | _ => exact hplain m hexpanded hframe
  | _ => exact hplain n hform hframe

theorem reduceWith_holds (hp : J.Evaluates plain plain') (hr : J.Runs run run') (steps : Nat) {form form' : Value}
    (hform : J.agree n form form') (hframe : J.within n frame) :
    J.Holds n (reduceWith steps eval plain run form frame) (reduceWith steps eval' plain' run' form' frame)
      J.StepAgree := by
  have hc := callWith_holds h hr (steps + 1)
  exact reduceWith_of_calls h hp hc (expandAll_holds hc (steps + 1)) hform hframe

theorem finish_holds {step step' : Step} (hstep : J.StepAgree n step step') :
    J.Holds n (step.finish eval) (step'.finish eval') J.agree := by
  cases hstep with
  | done hv => exact J.pure hv
  | next hform hframe => exact h n hform hframe

end Given

/-! ## Evaluators -/

/-- Evaluators pass a judgement on if the ways to evaluate what is no list and to run primitives do. -/
theorem evaluateWith_holds {plain plain' : Evaluator → Evaluator} {run run' : Evaluator → Runner}
    (hp : ∀ {eval eval' : Evaluator}, J.Evaluates eval eval' → J.Evaluates (plain eval) (plain' eval'))
    (hr : ∀ steps, J.Evaluates (evaluateWith plain run steps) (evaluateWith plain' run' steps) →
      J.Runs (run (evaluateWith plain run steps)) (run' (evaluateWith plain' run' steps))) :
    ∀ steps : Nat, J.Evaluates (evaluateWith plain run steps) (evaluateWith plain' run' steps)
  | 0 => fun _ _ _ _ _ _ => J.halt _
  | steps + 1 => fun n _ _ _ hform hframe => by
    have h := evaluateWith_holds hp hr steps
    exact J.bind (reduceWith_holds h (hp h) (hr steps h) steps hform hframe) fun _ _ _ _ hstep => finish_holds h hstep

/-- So does the evaluator, if the primitives do. -/
theorem evaluate_holds (hr : ∀ {eval eval' : Evaluator}, J.Evaluates eval eval' →
    J.Runs (Primitive.run eval) (Primitive.run eval')) (steps : Nat) :
    J.Evaluates (evaluate steps) (evaluate steps) := by
  rw [← evaluateWith_eq_evaluate]
  exact J.evaluateWith_holds evalPlain_holds (fun _ h => hr h) steps

end Judgement

end SmallLisp
