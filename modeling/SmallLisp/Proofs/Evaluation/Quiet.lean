/-
Forms that have values and change nothing (`State.Gives`): names that are bound, constants, quoted forms, and
calls of primitives that do no more than look at such arguments. A choice with such a test is the branch that
the test selects (`comes_conditional_of_gives`). All of this is said of names that stand for no macro
(`State.NoMacros`) and of primitives that have their names (`State.HasPrimitives`).
-/
import SmallLisp.Proofs.Evaluation.Expansion
import SmallLisp.Proofs.Evaluation.Handlers

namespace SmallLisp

open Run (Climbs Comes below_continuing comes_bind_of_value comes_congr comes_iff_of_eq comes_value_iff
  comes_fault_iff)
open Template (quoting)

/-! ## Names that keep their meaning -/

/-- None of the names stands for a macro. -/
def State.NoMacros (s : State) (frame : FrameId) (names : List String) : Prop :=
  ∀ name ∈ names, ∀ v, s.get? frame name = some v → v.isMacro = false

/-- The primitives are what their names stand for. -/
def State.HasPrimitives (s : State) (frame : FrameId) (primitives : List Primitive) : Prop :=
  ∀ p ∈ primitives, ∃ info, s.get? frame p.name = some (.primitive p false info)

namespace State

variable {s t : State} {frame frame' : FrameId} {names : List String} {primitives : List Primitive}

theorem NoMacros.of_get? (h : s.NoMacros frame names) (heq : ∀ name ∈ names, t.get? frame' name = s.get? frame name) :
    t.NoMacros frame' names := by
  intro name hname
  rw [heq name hname]
  exact h name hname

theorem HasPrimitives.of_get? (h : s.HasPrimitives frame primitives)
    (heq : ∀ p ∈ primitives, t.get? frame' p.name = s.get? frame p.name) : t.HasPrimitives frame' primitives := by
  intro p hp
  rw [heq p hp]
  exact h p hp

end State

/-! ## Forms that give values -/

/-- A form has a value in a frame, and evaluating it changes nothing. -/
def State.Gives (s : State) (frame : FrameId) (form v : Value) : Prop :=
  Comes (fun n => evaluate n form frame) s (.value v s)

section Quiet

variable {s t : State} {frame : FrameId} {name : String} {v : Value}

/-! ## Forms without calls -/

theorem gives_symbol (h : s.get? frame name = some v) : s.Gives frame (.symbol name) v :=
  comes_value_iff.2 ⟨1, evaluate_symbol h 0⟩

theorem gives_bool (b : Bool) : s.Gives frame (.bool b) (.bool b) := comes_value_iff.2 ⟨1, rfl⟩

theorem gives_int (i : Int) : s.Gives frame (.int i) (.int i) := comes_value_iff.2 ⟨1, rfl⟩

theorem gives_str (text : String) : s.Gives frame (.str text) (.str text) := comes_value_iff.2 ⟨1, rfl⟩

theorem gives_quoting (h : ∀ v, s.get? frame "quote" = some v → v.isMacro = false) (form : Value) :
    s.Gives frame (quoting form) form :=
  comes_value_iff.2 ⟨1, evaluate_quoting h 0 form⟩

/-- All forms of a row get their values with steps enough. -/
theorem evalEach_of_gives {forms values : List Value} (h : List.Forall₂ (s.Gives frame) forms values) :
    Comes (fun n => evalEach (evaluate n) frame forms) s (.value values s) := by
  induction h with
  | nil => exact comes_value_iff.2 ⟨0, rfl⟩
  | @cons form value forms values hform _ ih =>
    obtain ⟨m, hm⟩ := (evaluate_climbs form frame).comes hform
    obtain ⟨k, hk⟩ := (evalEach_climbs forms frame).comes ih
    exact comes_value_iff.2 ⟨max m k, evalEach_cons_value.2
      ⟨value, values, s, hm _ (Nat.le_max_left m k), hk _ (Nat.le_max_right m k), rfl⟩⟩

/-! ## Calls -/

section Calls

variable {info : Value} (hname : SpecialForm.ofName? name = none)

include hname in
/-- A call of a primitive comes to what the primitive makes of the values of the arguments. -/
theorem comes_primitive {p : Primitive} (h : ∃ info, s.get? frame name = some (.primitive p false info))
    {args values : List Value} (hargs : List.Forall₂ (s.Gives frame) args values) {o : Outcome Value}
    (hrun : ∀ eval call, p.run eval call frame values s = o) (ho : o.Ended) :
    Comes (fun n => evaluate n (.list (.symbol name :: args) info) frame) s o := by
  obtain ⟨_, hget⟩ := h
  obtain ⟨m, hm⟩ := (evalEach_climbs args frame).comes (evalEach_of_gives hargs)
  refine ⟨m + 2, (evaluate_call hname hget rfl m args info).trans ?_, ho⟩
  exact (Run.bind_of_value (hm (m + 1) (Nat.le_succ m))).trans (hrun _ _)

include hname in
theorem gives_primitive {p : Primitive} (h : ∃ info, s.get? frame name = some (.primitive p false info))
    {args values : List Value} (hargs : List.Forall₂ (s.Gives frame) args values)
    (hrun : ∀ eval call, p.run eval call frame values s = .value v s) :
      s.Gives frame (.list (.symbol name :: args) info) v :=
  comes_primitive hname h hargs hrun trivial

include hname in
/-- A call fails as its first failing argument does. -/
theorem comes_call_fault {p : Primitive} (h : ∃ info, s.get? frame name = some (.primitive p false info))
    {before after values : List Value} {form : Value} (hbefore : List.Forall₂ (s.Gives frame) before values)
    {fault : Fault} (hform : Comes (fun n => evaluate n form frame) s (.fault fault t)) :
    Comes (fun n => evaluate n (.list (.symbol name :: (before ++ form :: after)) info) frame) s (.fault fault t) := by
  obtain ⟨_, hget⟩ := h
  obtain ⟨m, hm⟩ := (evalEach_climbs before frame).comes (evalEach_of_gives hbefore)
  obtain ⟨k, hk⟩ := (evaluate_climbs form frame).comes hform
  refine comes_fault_iff.2 ⟨max m k + 2, (evaluate_call hname hget rfl _ _ info).trans ?_⟩
  exact Run.bind_eq_fault.2 (.inl (evalEach_eq_fault.2
    ⟨before, form, after, values, s, rfl, hm _ (by omega), hk _ (by omega)⟩))

end Calls

/-! ## Choices -/

section Choices

variable {test yes : Value} {no : List Value} (hif : ∀ v, s.get? frame "if" = some v → v.isMacro = false)
  (hno : no.length ≤ 1) (info : Value)
include hif hno

/-- The branch of a choice. -/
def chosen (eval : Evaluator) (frame : FrameId) (yes : Value) (no : List Value) (v : Value) : Run Value :=
  if v.isTruthy then eval yes frame else evalBody eval frame no

omit hif hno in
theorem chosen_climbs (yes : Value) (no : List Value) (v : Value) :
    Climbs fun n => chosen (evaluate n) frame yes no v :=
  .ite (evaluate_climbs yes frame)
    (fun _ _ hmn => below_continuing.evalBody (evaluate_below hmn) frame no) v.isTruthy

/-- A choice comes to what its branch comes to, after the test. -/
theorem comes_conditional (o : Outcome Value) :
    Comes (fun n => evaluate n (.list (.symbol "if" :: test :: yes :: no) info) frame) s o ↔
      Comes (fun n => do chosen (evaluate n) frame yes no (← evaluate n test frame)) s o := by
  have hname : SpecialForm.ofName? "if" = some .conditional := SpecialForm.ofName?_name .conditional
  refine comes_congr (evaluate_climbs _ frame) ((evaluate_climbs test frame).bind (chosen_climbs yes no))
    ⟨1, 0, fun n => ?_⟩ o
  rw [evaluate_unexpanded hif, hname]
  match no, hno with
  | [], _ | [_], _ =>
    refine congrFun (bind_congr fun v => ?_) s
    unfold chosen
    cases v.isTruthy <;> rfl

theorem comes_conditional_of_gives (htest : s.Gives frame test v) (o : Outcome Value) :
    Comes (fun n => evaluate n (.list (.symbol "if" :: test :: yes :: no) info) frame) s o ↔
      Comes (fun n => chosen (evaluate n) frame yes no v) s o :=
  (comes_conditional hif hno info o).trans
    (comes_bind_of_value (evaluate_climbs test frame) (chosen_climbs yes no) htest o)

end Choices

/-! ## Rows and bindings -/

section Bindings

/-- Of two forms in order, the second one is gone on with after the value of the first one. -/
theorem comes_inOrder (hdo : ∀ v, s.get? frame "do" = some v → v.isMacro = false) {first : Value}
    (hfirst : Comes (fun n => evaluate n first frame) s (.value v t)) (last : Value) (o : Outcome Value) :
    Comes (fun n => evaluate n (.ofList [.symbol "do", first, last]) frame) s o ↔
      Comes (fun n => evaluate n last frame) t o := by
  have hrow : Comes (fun n => evalEach (evaluate n) frame [first]) s (.value [v] t) := by
    obtain ⟨n, hn⟩ := comes_value_iff.1 hfirst
    exact comes_value_iff.2 ⟨n, evalEach_cons_value.2 ⟨v, [], t, hn, rfl, rfl⟩⟩
  refine Iff.trans ?_ (comes_bind_of_value (evalEach_climbs [first] frame) (fun _ => evaluate_climbs last frame) hrow o)
  exact comes_congr (evaluate_climbs _ frame) ((evalEach_climbs [first] frame).bind fun _ => evaluate_climbs last frame)
    ⟨1, 0, fun n => evaluate_inOrder hdo n [first] last⟩ o

/-- A binding of one name comes to what its body comes to, after the form of the binding. -/
theorem comes_letIn_single (hlet : ∀ v, s.get? frame "let*" = some v → v.isMacro = false) (name : String)
    (form body info : Value) (o : Outcome Value) :
    Comes (fun n => evaluate n (.list [.symbol "let*", .ofList [.symbol name, form], body] info) frame) s o ↔
      Comes (fun n => do
        Run.define s.frames.size name (← evaluate n form s.frames.size)
        evaluate n body s.frames.size) (s.addFrame ⟨some frame, []⟩) o := by
  have hname : SpecialForm.ofName? "let*" = some .letIn := SpecialForm.ofName?_name .letIn
  refine comes_iff_of_eq (evaluate_climbs _ frame) ?_ (m := 0) (j := 1) (k := 0) (fun n _ => ?_) o
  · exact (evaluate_climbs form _).bind fun v => (Climbs.const _).bind fun _ => evaluate_climbs body _
  · rw [evaluate_unexpanded hlet, hname]
    refine (letIn_value rfl (by simp)).trans (congrFun ?_ (s.addFrame ⟨some frame, []⟩))
    exact (bind_assoc (evaluate n form _) _ _).trans (bind_congr fun v => bind_assoc (Run.define _ name v) _ _)

end Bindings

end Quiet

end SmallLisp
