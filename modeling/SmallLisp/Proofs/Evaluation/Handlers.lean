/-
Handlers. What is evaluated inside of other evaluations and calls is reached along a chain of steps, each
of which hands a fault on as it is (`Chain.fault`). Main statement: what is thrown at the end of a chain
that begins with the body of a guarded form is what its handler finds under its name, if it can be written
as a message shows it (`throw_reaches_handler`).
-/
import SmallLisp.Proofs.Evaluation.Rules
import SmallLisp.Proofs.Run.Looking
import SmallLisp.Proofs.Run.Soundness
import SmallLisp.Session

namespace SmallLisp

open Run (Climbs Comes below_continuing comes_iff_of_eq comes_value_iff comes_fault_iff)
open SpecialForm (bindInTurn)

/-! ## Activities -/

/-- What is evaluated: a form in a frame, or the call of a function from a frame. -/
inductive Activity where
  | form (form : Value) (frame : FrameId)
  | call (function : Value) (args : List Value) (caller : FrameId)

namespace Activity

def run (steps : Nat) : Activity → Run Value
  | form f frame => evaluate steps f frame
  | call function args caller => callFunction (evaluate steps) (steps + 1) function args caller

theorem run_climbs : ∀ a : Activity, Climbs fun n => a.run n
  | form f frame => evaluate_climbs f frame
  | call function args caller => fun _ _ hmn => callFunction_below hmn (Nat.succ_le_succ hmn) function args caller

end Activity

/-! ## Steps -/

/-- One step inwards. The first activity is begun in the state `s`, and the second one is the next part of
it to be evaluated, in the state `t`: what comes before it has its values. -/
inductive Leads : Activity → State → Activity → State → Prop where
  /-- The form of a binding, after the bindings before it. -/
  | binding {s t : State} {frame : FrameId} {bindings body form info : Value} {row before after : List Value}
      {name : String} :
    macroCall? s frame (.list [.symbol "let*", bindings, body] info) = none →
    bindings.items? = some row → row.length % 2 = 0 → row = before ++ .symbol name :: form :: after →
    before.length % 2 = 0 →
    (∃ n, bindInTurn (evaluate n) s.frames.size before (s.addFrame ⟨some frame, []⟩) = .value () t) →
    Leads (.form (.list [.symbol "let*", bindings, body] info) frame) s (.form form s.frames.size) t
  /-- The body, after all bindings. -/
  | bound {s t : State} {frame : FrameId} {bindings body info : Value} {row : List Value} :
    macroCall? s frame (.list [.symbol "let*", bindings, body] info) = none →
    bindings.items? = some row → row.length % 2 = 0 →
    (∃ n, bindInTurn (evaluate n) s.frames.size row (s.addFrame ⟨some frame, []⟩) = .value () t) →
    Leads (.form (.list [.symbol "let*", bindings, body] info) frame) s (.form body s.frames.size) t
  /-- A form in order, after those before it. -/
  | inOrder {s t : State} {frame : FrameId} {form info : Value} {before after values : List Value} :
    macroCall? s frame (.list (.symbol "do" :: (before ++ form :: after)) info) = none →
    (∃ n, evalEach (evaluate n) frame before s = .value values t) →
    Leads (.form (.list (.symbol "do" :: (before ++ form :: after)) info) frame) s (.form form frame) t
  | test {s : State} {frame : FrameId} {test yes info : Value} {no : List Value} :
    macroCall? s frame (.list (.symbol "if" :: test :: yes :: no) info) = none → no.length ≤ 1 →
    Leads (.form (.list (.symbol "if" :: test :: yes :: no) info) frame) s (.form test frame) s
  | yes {s t : State} {frame : FrameId} {test yes v info : Value} {no : List Value} :
    macroCall? s frame (.list (.symbol "if" :: test :: yes :: no) info) = none → no.length ≤ 1 →
    (∃ n, evaluate n test frame s = .value v t) → v.isTruthy = true →
    Leads (.form (.list (.symbol "if" :: test :: yes :: no) info) frame) s (.form yes frame) t
  | no {s t : State} {frame : FrameId} {test yes no v info : Value} :
    macroCall? s frame (.list [.symbol "if", test, yes, no] info) = none →
    (∃ n, evaluate n test frame s = .value v t) → v.isTruthy = false →
    Leads (.form (.list [.symbol "if", test, yes, no] info) frame) s (.form no frame) t
  | head {s : State} {frame : FrameId} {head info : Value} {args : List Value} :
    macroCall? s frame (.list (head :: args) info) = none → SpecialForm.ofHead? head = none →
    Leads (.form (.list (head :: args) info) frame) s (.form head frame) s
  /-- An argument, after the head and the arguments before it. -/
  | argument {s r t : State} {frame : FrameId} {head function arg info : Value} {before after values : List Value} :
    macroCall? s frame (.list (head :: (before ++ arg :: after)) info) = none → SpecialForm.ofHead? head = none →
    (∃ n, evaluate n head frame s = .value function r) →
    (∃ n, evalEach (evaluate n) frame before r = .value values t) →
    Leads (.form (.list (head :: (before ++ arg :: after)) info) frame) s (.form arg frame) t
  /-- The call itself, after the head and all arguments. -/
  | enter {s r t : State} {frame : FrameId} {head function info : Value} {args values : List Value} :
    macroCall? s frame (.list (head :: args) info) = none → SpecialForm.ofHead? head = none →
    (∃ n, evaluate n head frame s = .value function r) →
    (∃ n, evalEach (evaluate n) frame args r = .value values t) →
    Leads (.form (.list (head :: args) info) frame) s (.call function values frame) t
  /-- A form of the body of a function, after those before it. -/
  | body {s r t : State} {params : Parameters} {outer frame caller : FrameId} {isMacro : Bool} {form info : Value}
      {before after args values : List Value} :
    SmallLisp.enter params outer args s = .value frame r →
    (∃ n, evalEach (evaluate n) frame before r = .value values t) →
    Leads (.call (.closure params (before ++ form :: after) outer isMacro info) args caller) s (.form form frame) t
  | applied {s : State} {caller : FrameId} {isMacro : Bool} {function second info : Value} {others last : List Value} :
    Run.sequence "apply" ((second :: others).getLastD .nil) = pure last →
    Leads (.call (.primitive .apply isMacro info) (function :: second :: others) caller) s
      (.call function ((second :: others).dropLast ++ last) caller) s
  /-- The call for an item, after those for the items before it. -/
  | mapped {s t : State} {caller : FrameId} {isMacro : Bool} {function row item info : Value}
    {before after values : List Value} :
    Run.sequence "map" row = pure (before ++ item :: after) →
    (∃ n, before.mapM (fun item => (Activity.call function [item] caller).run n) s = .value values t) →
    Leads (.call (.primitive .map isMacro info) [function, row] caller) s (.call function [item] caller) t
  | swapped {s : State} {caller : FrameId} {isMacro : Bool} {function info : Value} {id : CellId} {extra : List Value} :
    Leads (.call (.primitive .swap isMacro info) (.cell id :: function :: extra) caller) s
      (.call function (s.content id :: extra) caller) s
  /-- What `eval` evaluates in the root frame. -/
  | evaluated {s : State} {caller : FrameId} {isMacro : Bool} {form info : Value} :
    Leads (.call (.primitive .eval isMacro info) [form] caller) s (.form form rootFrame) s

/-- Steps inwards, one after the other. -/
inductive Chain : Activity → State → Activity → State → Prop where
  | here {a : Activity} {s : State} : Chain a s a s
  | step {a b c : Activity} {s t u : State} : Leads a s b t → Chain b t c u → Chain a s c u

/-! ## Faults of parts -/

/-- With steps enough, a fault of the second activity is the fault of the first one, which takes some steps
more. -/
def HandsOn (a : Activity) (s : State) (b : Activity) (t : State) : Prop :=
  ∃ m j, ∀ n ≥ m, ∀ fault u, b.run n t = .fault fault u → a.run (n + j) s = .fault fault u

theorem HandsOn.fault {a b : Activity} {s t u : State} {fault : Fault} (h : HandsOn a s b t)
    (hb : ∃ n, b.run n t = .fault fault u) : ∃ n, a.run n s = .fault fault u := by
  obtain ⟨m, j, h⟩ := h
  obtain ⟨k, hk⟩ := b.run_climbs.comes (comes_fault_iff.2 hb)
  exact ⟨max m k + j, h _ (Nat.le_max_left m k) fault u (hk _ (Nat.le_max_right m k))⟩

section Rows

variable {frame : FrameId}

theorem evalEach_climbs (forms : List Value) (frame : FrameId) : Climbs fun n => evalEach (evaluate n) frame forms :=
  fun _ _ hmn => below_continuing.evalEach (evaluate_below hmn) frame forms

theorem bindInTurn_climbs (row : List Value) (frame : FrameId) : Climbs fun n => bindInTurn (evaluate n) frame row :=
  fun _ _ hmn => below_continuing.bindInTurn (evaluate_below hmn) frame row

theorem failInspecting_ne_value {α : Type} {v : Value} {cause : String → KindFault} {s t : State} {a : α} :
    (Run.failInspecting v cause : Run α) s ≠ .value a t := by
  intro h
  obtain ⟨_, _, _, hfail⟩ := Run.bind_eq_value.1 h
  cases hfail

/-- Bindings that have been made are behind. -/
theorem bindInTurn_append {eval : Evaluator} {t : State} (rest : List Value) : ∀ {before : List Value} {s : State},
    before.length % 2 = 0 → bindInTurn eval frame before s = .value () t →
    bindInTurn eval frame (before ++ rest) s = bindInTurn eval frame rest t
  | [], s, _, h => by cases h; rfl
  | [_], _, hlength, _ => by cases hlength
  | name :: form :: before, s, hlength, h => by
    have heven : before.length % 2 = 0 := by simp only [List.length_cons] at hlength; omega
    cases name with
    | symbol name =>
      obtain ⟨v, r, hv, hrest⟩ := Run.bind_eq_value.1 h
      have happend := bindInTurn_append rest heven
        (show bindInTurn eval frame before (r.define frame name v) = .value () t from hrest)
      exact (Run.bind_of_value hv).trans happend
    | _ => exact absurd h failInspecting_ne_value

/-- A binding whose form fails ends all. -/
theorem bindInTurn_fault {eval : Evaluator} {s t u : State} {before after : List Value} {name : String} {form : Value}
    {fault : Fault} (hlength : before.length % 2 = 0) (hbefore : bindInTurn eval frame before s = .value () t)
    (hform : eval form frame t = .fault fault u) :
    bindInTurn eval frame (before ++ .symbol name :: form :: after) s = .fault fault u := by
  rw [bindInTurn_append _ hlength hbefore]
  exact Run.bind_eq_fault.2 (.inl hform)

end Rows

/-! ### Special forms -/

section Special

variable {s t : State} {frame : FrameId} {info : Value}

theorem letIn_value {eval expand : Evaluator} {bindings body : Value} {row : List Value}
    (hrow : bindings.items? = some row) (heven : row.length % 2 = 0) :
    SpecialForm.letIn.value eval expand [bindings, body] frame s = (do
      bindInTurn eval s.frames.size row
      eval body s.frames.size : Run Value) (s.addFrame ⟨some frame, []⟩) := by
  have hodd : ¬row.length % 2 = 1 := by omega
  have hparts : Run.exactlyTwo SpecialForm.letIn.name [bindings, body] = pure (bindings, body) := rfl
  have hitems : Run.requireItems "let*" 0 bindings = pure row := by
    rw [Run.requireItems, hrow]
    rfl
  simp only [SpecialForm.value, hparts, hitems, pure_bind, if_neg hodd]
  rfl

theorem handsOn_binding {bindings body form : Value} {row before after : List Value} {name : String}
    (h : macroCall? s frame (.list [.symbol "let*", bindings, body] info) = none)
    (hrow : bindings.items? = some row) (heven : row.length % 2 = 0)
    (hsplit : row = before ++ .symbol name :: form :: after) (hlength : before.length % 2 = 0)
    (hbefore : ∃ n, bindInTurn (evaluate n) s.frames.size before (s.addFrame ⟨some frame, []⟩) = .value () t) :
    HandsOn (.form (.list [.symbol "let*", bindings, body] info) frame) s (.form form s.frames.size) t := by
  obtain ⟨m, hm⟩ := (bindInTurn_climbs before s.frames.size).comes (comes_value_iff.2 hbefore)
  refine ⟨m, 1, fun n hn fault u hform => (evaluate_of_macroCall? h n).trans ?_⟩
  refine (letIn_value hrow heven).trans (Run.bind_eq_fault.2 (.inl ?_))
  rw [hsplit]
  exact bindInTurn_fault hlength (hm n hn) hform

theorem handsOn_bound {bindings body : Value} {row : List Value}
    (h : macroCall? s frame (.list [.symbol "let*", bindings, body] info) = none)
    (hrow : bindings.items? = some row) (heven : row.length % 2 = 0)
    (hbound : ∃ n, bindInTurn (evaluate n) s.frames.size row (s.addFrame ⟨some frame, []⟩) = .value () t) :
    HandsOn (.form (.list [.symbol "let*", bindings, body] info) frame) s (.form body s.frames.size) t := by
  obtain ⟨m, hm⟩ := (bindInTurn_climbs row s.frames.size).comes (comes_value_iff.2 hbound)
  refine ⟨m, 1, fun n hn fault u hbody => (evaluate_of_macroCall? h n).trans ?_⟩
  exact (letIn_value hrow heven).trans (Run.bind_eq_fault.2 (.inr ⟨(), t, hm n hn, hbody⟩))

theorem handsOn_inOrder {form : Value} {before after values : List Value}
    (h : macroCall? s frame (.list (.symbol "do" :: (before ++ form :: after)) info) = none)
    (hbefore : ∃ n, evalEach (evaluate n) frame before s = .value values t) :
    HandsOn (.form (.list (.symbol "do" :: (before ++ form :: after)) info) frame) s (.form form frame) t := by
  obtain ⟨m, hm⟩ := (evalEach_climbs before frame).comes (comes_value_iff.2 hbefore)
  refine ⟨m, 1, fun n hn fault u hform => (evaluate_of_macroCall? h n).trans ?_⟩
  have hbody := evalBody_fault (hm n hn) hform after
  -- there is a form, so the count of parts is as it has to be
  cases before <;> exact hbody

section Conditional

variable {test yes v : Value} {no : List Value}

theorem conditional_fault {eval expand : Evaluator} {fault : Fault} (hno : no.length ≤ 1)
    (htest : eval test frame s = .fault fault t) :
    SpecialForm.conditional.value eval expand (test :: yes :: no) frame s = .fault fault t := by
  match no, hno with
  | [], _ | [_], _ => exact Run.bind_eq_fault.2 (.inl htest)

theorem conditional_value {eval expand : Evaluator} (hno : no.length ≤ 1) (htest : eval test frame s = .value v t) :
    SpecialForm.conditional.value eval expand (test :: yes :: no) frame s =
      if v.isTruthy then eval yes frame t else evalBody eval frame no t := by
  match no, hno with
  | [], _ | [_], _ =>
    simp only [SpecialForm.value, Run.bind_apply, htest, evalBody]
    cases v.isTruthy <;> rfl

theorem handsOn_test (h : macroCall? s frame (.list (.symbol "if" :: test :: yes :: no) info) = none)
    (hno : no.length ≤ 1) :
    HandsOn (.form (.list (.symbol "if" :: test :: yes :: no) info) frame) s (.form test frame) s :=
  ⟨0, 1, fun n _ _ _ htest => (evaluate_of_macroCall? h n).trans (conditional_fault hno htest)⟩

theorem handsOn_yes (h : macroCall? s frame (.list (.symbol "if" :: test :: yes :: no) info) = none)
    (hno : no.length ≤ 1) (htest : ∃ n, evaluate n test frame s = .value v t) (hv : v.isTruthy = true) :
    HandsOn (.form (.list (.symbol "if" :: test :: yes :: no) info) frame) s (.form yes frame) t := by
  obtain ⟨m, hm⟩ := (evaluate_climbs test frame).comes (comes_value_iff.2 htest)
  refine ⟨m, 1, fun n hn fault u hyes => (evaluate_of_macroCall? h n).trans ?_⟩
  exact (conditional_value hno (hm n hn)).trans ((if_pos hv).trans hyes)

theorem handsOn_no {no : Value} (h : macroCall? s frame (.list [.symbol "if", test, yes, no] info) = none)
    (htest : ∃ n, evaluate n test frame s = .value v t) (hv : v.isTruthy = false) :
    HandsOn (.form (.list [.symbol "if", test, yes, no] info) frame) s (.form no frame) t := by
  obtain ⟨m, hm⟩ := (evaluate_climbs test frame).comes (comes_value_iff.2 htest)
  refine ⟨m, 1, fun n hn fault u hno => (evaluate_of_macroCall? h n).trans ?_⟩
  have hone : [no].length ≤ 1 := Nat.le_refl 1
  exact (conditional_value hone (hm n hn)).trans ((if_neg (Bool.eq_false_iff.1 hv)).trans hno)

end Conditional

end Special

/-! ### Calls -/

section Calls

variable {s r t : State} {frame caller : FrameId} {head function info : Value} {args values : List Value}

theorem handsOn_head (h : macroCall? s frame (.list (head :: args) info) = none)
    (hhead : SpecialForm.ofHead? head = none) :
    HandsOn (.form (.list (head :: args) info) frame) s (.form head frame) s := by
  refine ⟨0, 1, fun n _ fault u hfault => (evaluate_of_macroCall? h n).trans ?_⟩
  rw [hhead]
  exact Run.bind_eq_fault.2 (.inl hfault)

theorem handsOn_argument {arg : Value} {before after : List Value}
    (h : macroCall? s frame (.list (head :: (before ++ arg :: after)) info) = none)
    (hhead : SpecialForm.ofHead? head = none) (hfunction : ∃ n, evaluate n head frame s = .value function r)
    (hbefore : ∃ n, evalEach (evaluate n) frame before r = .value values t) :
    HandsOn (.form (.list (head :: (before ++ arg :: after)) info) frame) s (.form arg frame) t := by
  obtain ⟨m, hm⟩ := (evaluate_climbs head frame).comes (comes_value_iff.2 hfunction)
  obtain ⟨k, hk⟩ := (evalEach_climbs before frame).comes (comes_value_iff.2 hbefore)
  refine ⟨max m k, 1, fun n hn fault u hfault => (evaluate_of_macroCall? h n).trans ?_⟩
  have hargs : evalEach (evaluate n) frame (before ++ arg :: after) r = .fault fault u :=
    evalEach_eq_fault.2 ⟨before, arg, after, values, t, rfl, hk n (by omega), hfault⟩
  rw [hhead]
  exact Run.bind_eq_fault.2 (.inr ⟨function, r, hm n (by omega), Run.bind_eq_fault.2 (.inl hargs)⟩)

theorem handsOn_enter (h : macroCall? s frame (.list (head :: args) info) = none)
    (hhead : SpecialForm.ofHead? head = none) (hfunction : ∃ n, evaluate n head frame s = .value function r)
    (hargs : ∃ n, evalEach (evaluate n) frame args r = .value values t) :
    HandsOn (.form (.list (head :: args) info) frame) s (.call function values frame) t := by
  obtain ⟨m, hm⟩ := (evaluate_climbs head frame).comes (comes_value_iff.2 hfunction)
  obtain ⟨k, hk⟩ := (evalEach_climbs args frame).comes (comes_value_iff.2 hargs)
  refine ⟨max m k, 1, fun n hn fault u hfault => (evaluate_of_macroCall? h n).trans ?_⟩
  rw [hhead]
  exact Run.bind_eq_fault.2 (.inr ⟨function, r, hm n (by omega),
    Run.bind_eq_fault.2 (.inr ⟨values, t, hk n (by omega), hfault⟩)⟩)

theorem handsOn_body {params : Parameters} {outer : FrameId} {isMacro : Bool} {form : Value} {before after : List Value}
    (henter : enter params outer args s = .value frame r)
    (hbefore : ∃ n, evalEach (evaluate n) frame before r = .value values t) :
    HandsOn (.call (.closure params (before ++ form :: after) outer isMacro info) args caller) s
      (.form form frame) t := by
  obtain ⟨m, hm⟩ := (evalEach_climbs before frame).comes (comes_value_iff.2 hbefore)
  exact ⟨m, 0, fun n hn fault u hfault =>
    Run.bind_eq_fault.2 (.inr ⟨frame, r, henter, evalBody_fault (hm n hn) hfault after⟩)⟩

/-- A primitive has one step less to make its calls with. -/
theorem call_fault_more {n : Nat} {fault : Fault} {u : State}
    (h : (Activity.call function args caller).run n t = .fault fault u) :
    callFunction (evaluate (n + 1)) (n + 1) function args caller t = .fault fault u :=
  (callFunction_below (Nat.le_succ n) (Nat.le_refl (n + 1)) function args caller).fault h

theorem handsOn_applied {isMacro : Bool} {second : Value} {others last : List Value}
    (hlast : Run.sequence "apply" ((second :: others).getLastD .nil) = pure last) :
    HandsOn (.call (.primitive .apply isMacro info) (function :: second :: others) caller) s
      (.call function ((second :: others).dropLast ++ last) caller) s := by
  refine ⟨0, 1, fun n _ fault u hfault => ?_⟩
  have hparts : Run.twoOrMore "apply" (function :: second :: others) = pure (function, second, others) := rfl
  have hrun : ∀ call : Caller, Calls.apply call caller (function :: second :: others) =
      call function ((second :: others).dropLast ++ last) caller := by
    simp only [Calls.apply, hparts, pure_bind, hlast, implies_true]
  exact (congrFun (hrun _) s).trans (call_fault_more hfault)

theorem mapM_fault {f : Value → Run Value} {item : Value} {before : List Value} {u : State} {fault : Fault}
    (hbefore : before.mapM f s = .value values t) (hitem : f item t = .fault fault u) (after : List Value) :
    (before ++ item :: after).mapM f s = .fault fault u := by
  rw [List.mapM_append, List.mapM_cons]
  exact Run.bind_eq_fault.2 (.inr ⟨values, t, hbefore, Run.bind_eq_fault.2 (.inl (Run.bind_eq_fault.2 (.inl hitem)))⟩)

theorem handsOn_mapped {isMacro : Bool} {row item : Value} {before after : List Value}
    (hrow : Run.sequence "map" row = pure (before ++ item :: after))
    (hbefore : ∃ n, before.mapM (fun item => (Activity.call function [item] caller).run n) s = .value values t) :
    HandsOn (.call (.primitive .map isMacro info) [function, row] caller) s (.call function [item] caller) t := by
  have hclimbs : Climbs fun n => before.mapM fun item => (Activity.call function [item] caller).run n := fun m n hmn =>
    .mapM (fun item => (Activity.call function [item] caller).run_climbs m n hmn) before
  obtain ⟨m, hm⟩ := hclimbs.comes (comes_value_iff.2 hbefore)
  refine ⟨m, 1, fun n hn fault u hfault => ?_⟩
  have hless : (before.mapM fun item => callFunction (evaluate (n + 1)) (n + 1) function [item] caller) s =
    .value values t := by
    have hcall := fun item => callFunction_below (Nat.le_succ n) (Nat.le_refl (n + 1)) function [item] caller
    exact (Run.ShortOf.mapM hcall before).value (hm n hn)
  have hparts : Run.exactlyTwo "map" [function, row] = pure (function, row) := rfl
  have hrun : ∀ call : Caller, Calls.map call caller [function, row] =
      (do return .ofList (← (before ++ item :: after).mapM fun item => call function [item] caller)) := by
    simp only [Calls.map, hparts, pure_bind, hrow, implies_true]
  refine (congrFun (hrun _) s).trans (Run.bind_eq_fault.2 (.inl ?_))
  exact mapM_fault hless (call_fault_more hfault) after

theorem handsOn_swapped {isMacro : Bool} {id : CellId} {extra : List Value} :
    HandsOn (.call (.primitive .swap isMacro info) (.cell id :: function :: extra) caller) s
      (.call function (s.content id :: extra) caller) s :=
  -- the cell and its content come first
  ⟨0, 1, fun _ _ _ _ hfault => Run.bind_eq_fault.2 (.inr ⟨_, s, rfl, Run.bind_eq_fault.2 (.inr ⟨id, s, rfl,
    Run.bind_eq_fault.2 (.inr ⟨s.content id, s, rfl, Run.bind_eq_fault.2 (.inl (call_fault_more hfault))⟩)⟩)⟩)⟩

theorem handsOn_evaluated {isMacro : Bool} {form : Value} :
    HandsOn (.call (.primitive .eval isMacro info) [form] caller) s (.form form rootFrame) s :=
  ⟨0, 0, fun _ _ _ _ hfault => hfault⟩

end Calls

/-! ## Chains -/

theorem Leads.handsOn {a b : Activity} {s t : State} (h : Leads a s b t) : HandsOn a s b t := by
  cases h with
  | binding h hrow heven hsplit hlength hbefore => exact handsOn_binding h hrow heven hsplit hlength hbefore
  | bound h hrow heven hbound => exact handsOn_bound h hrow heven hbound
  | inOrder h hbefore => exact handsOn_inOrder h hbefore
  | test h hno => exact handsOn_test h hno
  | yes h hno htest hv => exact handsOn_yes h hno htest hv
  | no h htest hv => exact handsOn_no h htest hv
  | head h hhead => exact handsOn_head h hhead
  | argument h hhead hfunction hbefore => exact handsOn_argument h hhead hfunction hbefore
  | enter h hhead hfunction hargs => exact handsOn_enter h hhead hfunction hargs
  | body henter hbefore => exact handsOn_body henter hbefore
  | applied hlast => exact handsOn_applied hlast
  | mapped hrow hbefore => exact handsOn_mapped hrow hbefore
  | swapped => exact handsOn_swapped
  | evaluated => exact handsOn_evaluated

/-- A fault at the end of a chain comes out at its beginning, in the state that it was raised in. -/
theorem Chain.fault {a c : Activity} {s u w : State} {fault : Fault} (h : Chain a s c u)
    (hc : ∃ n, c.run n u = .fault fault w) : ∃ n, a.run n s = .fault fault w := by
  induction h with
  | here => exact hc
  | step hleads _ ih => exact hleads.handsOn.fault (ih hc)

/-! ## Handlers -/

section Guarded

/-- The form that evaluates a body under a handler, which finds what it caught under a name. -/
def guardedForm (body : Value) (name : String) (handler clauseInfo info : Value) : Value :=
  .list [.symbol "try*", body, .list [.symbol "catch*", .symbol name, handler] clauseInfo] info

variable {s u : State} {frame caller : FrameId} {name : String} {v body handler clauseInfo info : Value}

theorem guarded_value {eval expand : Evaluator} {fault : Fault} (hbody : eval body frame s = .fault fault u) :
    SpecialForm.guarded.value eval expand [body, .list [.symbol "catch*", .symbol name, handler] clauseInfo] frame s =
      eval handler u.frames.size (u.addFrame ⟨some frame, [(name, fault.caught)]⟩) := by
  have hparts : Run.exactlyTwo SpecialForm.guarded.name
      [body, .list [.symbol "catch*", .symbol name, handler] clauseInfo] =
        pure (body, .list [.symbol "catch*", .symbol name, handler] clauseInfo) := rfl
  have hclause : SpecialForm.handlerParts (.list [.symbol "catch*", .symbol name, handler] clauseInfo) =
      pure (name, handler) := rfl
  simp only [SpecialForm.value, hparts, hclause, pure_bind, Run.handle, hbody]
  rfl

/-- A body that fails is replaced by the handler, in a new frame that holds what was caught. -/
theorem guarded_comes {fault : Fault}
    (h : macroCall? s frame (guardedForm body name handler clauseInfo info) = none)
    (hbody : ∃ n, evaluate n body frame s = .fault fault u) (o : Outcome Value) :
    Comes (fun n => evaluate n (guardedForm body name handler clauseInfo info) frame) s o ↔
      Comes (fun n => evaluate n handler u.frames.size) (u.addFrame ⟨some frame, [(name, fault.caught)]⟩) o := by
  obtain ⟨m, hm⟩ := (evaluate_climbs body frame).comes (comes_fault_iff.2 hbody)
  refine comes_iff_of_eq (evaluate_climbs _ _) (evaluate_climbs _ _) (m := m) (j := 1) (k := 0) (fun n hn => ?_) o
  exact (evaluate_of_macroCall? h n).trans (guarded_value (hm n hn))

theorem throw_ok {shown : String} (h : v.inspect u.cells = .ok shown) (caller : FrameId) :
    Calls.throw caller [v] u = .fault (.thrown v shown) u :=
  Run.bind_eq_fault.2 (.inr ⟨v, u, rfl, Run.bind_eq_fault.2 (.inr ⟨shown, u, Run.inspected_of_text h, rfl⟩)⟩)

theorem throw_error {fault : Fault} (h : v.inspect u.cells = .error fault) (caller : FrameId) :
    Calls.throw caller [v] u = .fault fault u := by
  have hinspected : Run.inspected v u = .fault fault u := by
    simp only [Run.inspected, Run.ask, h]
  exact Run.bind_eq_fault.2 (.inr ⟨v, u, rfl, Run.bind_eq_fault.2 (.inl hinspected)⟩)

/-- A value that is thrown within the body of a guarded form, at the end of any chain of steps inwards,
reaches the handler of that form as it is: the guarded form comes to what the handler comes to in a new
frame, inside of the frame of the form, in which the name is bound to that value. This takes that the
value can be written for the message of the fault. If it holds an integer that is too long, or a cell that
holds itself, then the name is bound to the text of the fault that says so. -/
theorem throw_reaches_handler {isMacro : Bool} {throwInfo : Value}
    (h : macroCall? s frame (guardedForm body name handler clauseInfo info) = none)
    (hchain : Chain (.form body frame) s (.call (.primitive .throw isMacro throwInfo) [v] caller) u) :
    (∀ shown, v.inspect u.cells = .ok shown → ∀ o,
      Comes (fun n => evaluate n (guardedForm body name handler clauseInfo info) frame) s o ↔
        Comes (fun n => evaluate n handler u.frames.size) (u.addFrame ⟨some frame, [(name, v)]⟩) o) ∧
    (∀ fault, v.inspect u.cells = .error fault → (fault = .integerTooLong ∨ fault = .endlessText) ∧ ∀ o,
      Comes (fun n => evaluate n (guardedForm body name handler clauseInfo info) frame) s o ↔
        Comes (fun n => evaluate n handler u.frames.size)
          (u.addFrame ⟨some frame, [(name, .str fault.message)]⟩) o) := by
  refine ⟨fun shown hshown => ?written, fun fault hfault => ?unwritten⟩
  case written => exact guarded_comes h (hchain.fault ⟨0, throw_ok hshown caller⟩)
  case unwritten =>
    have hcause : fault = .integerTooLong ∨ fault = .endlessText :=
      Value.inspect_fails (F := fun fault => fault = .integerTooLong ∨ fault = .endlessText) (.inl rfl) (.inr rfl)
        u.cells v fault hfault
    have hcaught : fault.caught = .str fault.message := by
      rcases hcause with rfl | rfl <;> rfl
    refine ⟨hcause, fun o => ?_⟩
    rw [← hcaught]
    exact guarded_comes h (hchain.fault ⟨0, throw_error hfault caller⟩) o

/-- A form that throws what `y` is bound to, after a value that is not used. -/
def throwsInOrder : Value := .ofList [.symbol "do", .int 1, .ofList [.symbol "throw", .symbol "y"]]

/-- A call that hands a keyword on to a function that throws it. -/
def appliesThrowing : Value :=
  .ofList [.symbol "apply", .ofList [.symbol "fn*", .ofList [.symbol "y"], throwsInOrder], .ofVector [.keyword "a"]]

theorem throw_reaches_handler_applied :
    let s := State.initial [] (.tree []) "" true 0
    ∃ n t, evaluate n (guardedForm appliesThrowing "e" (.symbol "e") .nil .nil) rootFrame s =
      .value (.keyword "a") t := by
  intro s
  let params : Parameters := ⟨["y"], none, by decide⟩
  let closure : Value := .closure params [throwsInOrder] rootFrame false .nil
  let r : State := s.addFrame ⟨some rootFrame, [("y", .keyword "a")]⟩
  have happly : Leads (.form appliesThrowing rootFrame) s
      (.call (.primitive .apply false .nil) [closure, .ofVector [.keyword "a"]] rootFrame) s :=
    .enter rfl rfl ⟨1, rfl⟩ ⟨2, rfl⟩
  have hcall : Leads (.call (.primitive .apply false .nil) [closure, .ofVector [.keyword "a"]] rootFrame) s
      (.call closure [.keyword "a"] rootFrame) s := .applied rfl
  have hbody : Leads (.call closure [.keyword "a"] rootFrame) s (.form throwsInOrder 1) r :=
    @Leads.body s r r params rootFrame 1 rootFrame false throwsInOrder .nil [] [] [.keyword "a"] [] rfl ⟨0, rfl⟩
  have hthrow : Leads (.form throwsInOrder 1) r (.form (.ofList [.symbol "throw", .symbol "y"]) 1) r :=
    @Leads.inOrder r r 1 (.ofList [.symbol "throw", .symbol "y"]) .nil [.int 1] [] [.int 1] rfl ⟨1, rfl⟩
  have hthrown : Leads (.form (.ofList [.symbol "throw", .symbol "y"]) 1) r
      (.call (.primitive .throw false .nil) [.keyword "a"] 1) r := .enter rfl rfl ⟨1, rfl⟩ ⟨1, rfl⟩
  have hchain := Chain.step happly (.step hcall (.step hbody (.step hthrow (.step hthrown .here))))
  have hplain : macroCall? s rootFrame (guardedForm appliesThrowing "e" (.symbol "e") .nil .nil) = none := rfl
  obtain ⟨n, hn⟩ := comes_value_iff.1
    (((throw_reaches_handler hplain hchain).1 _ rfl (.value (.keyword "a") _)).2 ⟨1, rfl, trivial⟩)
  exact ⟨n, _, hn⟩

/-- An integer with too many digits does not reach the handler: what does is a text about the digits. -/
theorem throw_tooLong :
    let s := (State.initial [] (.tree []) "" true 0).define rootFrame "big" (.int Value.unwritable)
    let form := guardedForm (.ofList [.symbol "throw", .symbol "big"]) "e" (.symbol "e") .nil .nil
    (∃ n t, evaluate n form rootFrame s = .value (.str Fault.integerTooLong.message) t) ∧
    ∀ n t, evaluate n form rootFrame s ≠ .value (.int Value.unwritable) t := by
  intro s form
  have hinspect : (Value.int Value.unwritable).inspect s.cells = .error .integerTooLong := by
    rw [Value.inspect, Value.inspectWith, Value.integerText, Int.natAbs_natCast, if_neg (Nat.lt_irrefl _)]
  have hleads : Leads (.form (.ofList [.symbol "throw", .symbol "big"]) rootFrame) s
      (.call (.primitive .throw false .nil) [.int Value.unwritable] rootFrame) s := .enter rfl rfl ⟨1, rfl⟩ ⟨1, rfl⟩
  have hbody := (Chain.step hleads .here).fault ⟨0, throw_error hinspect rootFrame⟩
  have hplain : macroCall? s rootFrame form = none := rfl
  obtain ⟨n, hn⟩ := comes_value_iff.1 ((guarded_comes hplain hbody
    (.value (.str Fault.integerTooLong.message) _)).2 ⟨1, rfl, trivial⟩)
  refine ⟨⟨n, _, hn⟩, fun m t hm => ?_⟩
  -- the form ends in one way only
  have hunique := evaluate_unique (m := m) (n := n) (by rw [hm]; trivial) (by rw [hn]; trivial)
  rw [hm, hn] at hunique
  cases hunique

end Guarded

end SmallLisp
