/-
Evaluation hands on what relates its parts. That two runs, whatever they are followed by, are related by a compositional
relation is a judgement (`Run.Compositional.judgement`), so the relation holds between what evaluation makes of related
evaluators (`Run.Compositional.evaluateWith`). If it is a relation of which the second run goes on, then the evaluator
itself is related to the evaluator with more steps (`Run.Continuing.evaluate`).
-/
import SmallLisp.Proofs.Evaluation.Judgement
import SmallLisp.Proofs.Primitive.Closed
import SmallLisp.Proofs.Run.Compositional

namespace SmallLisp.Run

namespace CompositionalBesideFrames

variable {R : ∀ α : Type, Run α → Run α → Prop} (h : CompositionalBesideFrames R)
include h

/-- Primitives are related if the functions that they call are, and the evaluation in the root frame is. -/
theorem primitive {eval eval' : Evaluator} {call call' : Caller}
    (hc : ∀ function args frame, R Value (call function args frame) (call' function args frame))
    (he : ∀ form, R Value (eval form rootFrame) (eval' form rootFrame)) (p : Primitive)
    (frame : FrameId) (args : List Value) : R Value (p.run eval call frame args) (p.run eval' call' frame args) := by
  cases p with
  | apply => exact h.bind (h.self.twoOrMore _ _) fun (_, _, _) => h.bind (h.self.sequence _ _) fun _ => hc _ _ _
  | map =>
    exact h.bind (h.self.exactlyTwo _ _) fun (_, _) => h.bind (h.self.sequence _ _) fun items =>
      h.bind (h.mapM (fun item => hc _ _ _) items) fun _ => h.pure _
  | swap =>
    exact h.bind (h.self.twoOrMore _ _) fun (_, _, _) => h.bind (h.self.requireCell _ _) fun _ =>
      h.bind (h.self.content _) fun _ => h.bind (hc _ _ _) fun _ => h.bind (h.self.setContent _ _) fun _ => h.pure _
  | eval => exact h.bind (h.self.exactlyOne _ _) fun form => he form
  | _ => exact h.self.primitive_of_notMem_calling args _ _ (by simp [Primitive.calling])

end CompositionalBesideFrames

namespace Compositional

variable {R : ∀ α : Type, Run α → Run α → Prop} (h : Compositional R)
include h

/-! ## The judgement -/

/-- What follows on runs is related, if it is so for all related things that they come to. -/
def Followed (R : ∀ α : Type, Run α → Run α → Prop) {α β : Type} (n : Nat) (x : Run α) (y : Run β)
    (Q : Nat → α → β → Prop) : Prop :=
  ∀ {γ : Type} (f : α → Run γ) (g : β → Run γ), (∀ m ≥ n, ∀ a b, Q m a b → R γ (f a) (g b)) → R γ (x >>= f) (y >>= g)

theorem followed {α : Type} {n : Nat} {x y : Run α} (hxy : R α x y) {Q : Nat → α → α → Prop} (hQ : ∀ a, Q n a a) :
    Followed R n x y Q :=
  fun _ _ hfg => h.bind hxy fun a => hfg n (Nat.le_refl n) a a (hQ a)

/-- If the runs come to the same, they are related themselves. -/
theorem of_followed {α : Type} {n : Nat} {x y : Run α} {Q : Nat → α → α → Prop} (hxy : Followed R n x y Q)
    (hQ : ∀ m a b, Q m a b → a = b) : R α x y := by
  simpa only [bind_pure] using hxy Pure.pure Pure.pure fun m _ a b hab => hQ m a b hab ▸ h.pure a

/-- Nothing follows on a fault. -/
theorem followed_fail {α β : Type} {n : Nat} {f : Fault} (hf : f.IsOwn) (Q : Nat → α → β → Prop) :
    Followed R n (Run.fail f) (Run.fail f) Q := fun _ _ _ => h.self.fail hf

theorem followed_failInspecting {α β : Type} {n : Nat} (v : Value) (cause : String → KindFault)
    (Q : Nat → α → β → Prop) : Followed R n (Run.failInspecting v cause) (Run.failInspecting v cause) Q := by
  intro γ f g _
  have hfail : ∀ {δ : Type} (k : δ → Run γ), (Run.failInspecting v cause >>= k) = Run.failInspecting v cause := by
    intro δ k
    rw [Run.failInspecting, bind_assoc]
    rfl
  rw [hfail, hfail]
  exact h.self.failInspecting v cause

theorem followed_getting {n : Nat} (frame : FrameId) (name : String) {Q : Nat → Option Value → Option Value → Prop}
    (hQ : ∀ found, Q n found found) : Followed R n (Run.getting frame name) (Run.getting frame name) Q :=
  fun f g hfg => h.look fun s => ⟨f (s.get? frame name), g (s.get? frame name),
    hfg n (Nat.le_refl n) _ _ (hQ _), rfl, rfl⟩

/-- The relation of runs as a judgement on values that are the same. -/
def judgement : Judgement where
  toAgreement := .same
  Holds n x y Q := Followed R n x y Q
  within _ _ := True
  bound _ := Eq
  within_mono _ h := h
  refers_of_within h := h
  bound_nil := rfl
  bound_single name _ _ hvw := by rw [hvw.2]
  pure hab _ _ _ hfg := hfg _ (Nat.le_refl _) _ _ hab
  bind {_ _ _ _ n x y f g _ _} hx hf γ k l hkl := by
    rw [bind_assoc, bind_assoc]
    exact hx _ _ fun m hm a b hab => hf m hm a b hab k l fun i hi => hkl i (Nat.le_trans hm hi)
  handle {n x y f g} hx hf γ k l hkl := by
    have hhandled := h.handle (h.of_followed hx fun _ _ _ hab => hab.2) fun fault =>
      h.of_followed (hf n (Nat.le_refl n) fault fault ⟨trivial, rfl⟩) fun _ _ _ hab => hab.2
    exact h.bind hhandled fun a => hkl n (Nat.le_refl n) a a ⟨trivial, rfl⟩
  halt _ _ _ _ _ := h.self.halt _
  failKind cause _ := h.followed_fail (by simp [Fault.IsOwn]) _
  failArity cause _ := h.followed_fail (by simp [Fault.IsOwn]) _
  failUnbound name _ := h.followed_fail (by simp [Fault.IsOwn]) _
  failInspecting cause _ hvw := hvw.2 ▸ h.followed_failInspecting _ cause _
  getting frame name := h.followed_getting frame name fun found => by
    cases found with
    | none => exact .none
    | some v => exact .some ⟨trivial, rfl⟩
  define name v _ _ hvw := hvw.2 ▸ h.followed (h.define _ name v) fun _ => trivial
  newFrame _ hbound := hbound ▸ h.followed (h.newFrame _ _) fun _ => ⟨rfl, trivial⟩
  requireKey name v _ hvw := hvw.2 ▸ h.followed (h.self.requireKey name v) fun _ => ⟨⟨trivial, trivial⟩, rfl⟩
  parameters hforms := Agreement.same_each_iff.1 hforms ▸ h.followed (h.self.parametersOfForms _) fun _ => rfl
  arguments params _ _ hargs :=
    Agreement.same_each_iff.1 hargs ▸ h.followed (h.self.bindForms _ _ _) fun _ => rfl

/-! ## Evaluation with given evaluators -/

section Given

variable {eval eval' : Evaluator} (he : ∀ form frame, R Value (eval form frame) (eval' form frame))
include he

theorem evaluates : h.judgement.Evaluates eval eval' := by
  rintro n form _ frame ⟨-, rfl⟩ -
  exact h.followed (he form frame) (Agreement.same_self _)

omit he in
theorem calls {call call' : Caller}
    (hc : ∀ function args frame, R Value (call function args frame) (call' function args frame)) :
    h.judgement.Calls call call' := by
  rintro n function _ args args' frame ⟨-, rfl⟩ hargs
  obtain rfl := Agreement.same_each_iff.1 hargs
  exact h.followed (hc function args frame) (Agreement.same_self _)

omit he in
theorem of_evaluates (h' : h.judgement.Evaluates eval eval') (form : Value) (frame : FrameId) :
    R Value (eval form frame) (eval' form frame) :=
  h.of_followed (h' 0 ⟨trivial, rfl⟩ trivial) fun _ _ _ hvw => hvw.2

omit he in
theorem of_calls {call call' : Caller} (hc : h.judgement.Calls call call') (function : Value) (args : List Value)
    (frame : FrameId) : R Value (call function args frame) (call' function args frame) :=
  h.of_followed (hc 0 frame ⟨trivial, rfl⟩ (Agreement.same_each 0 _)) fun _ _ _ hvw => hvw.2

omit he in
theorem runs (he : ∀ form, R Value (eval form rootFrame) (eval' form rootFrame)) :
    h.judgement.Runs (Primitive.run eval) (Primitive.run eval') := by
  intro call call' hc n p isMacro info info' args args' frame _ hargs
  obtain rfl := Agreement.same_each_iff.1 hargs
  exact h.followed (h.primitive (h.of_calls hc) he p frame args) (Agreement.same_self n)

theorem evalEach (frame : FrameId) (forms : List Value) :
    R (List Value) (evalEach eval frame forms) (evalEach eval' frame forms) :=
  h.of_followed (Judgement.evalEach_holds (h.evaluates he) 0 (Agreement.same_each 0 _) trivial)
    fun _ _ _ hvs => Agreement.same_each_iff.1 hvs

theorem evalBody (frame : FrameId) (forms : List Value) :
    R Value (evalBody eval frame forms) (evalBody eval' frame forms) :=
  h.of_followed (Judgement.evalBody_holds (h.evaluates he) 0 (Agreement.same_each 0 _) trivial)
    fun _ _ _ hvw => hvw.2

theorem bindInTurn (frame : FrameId) (row : List Value) :
    R Unit (SpecialForm.bindInTurn eval frame row) (SpecialForm.bindInTurn eval' frame row) :=
  h.of_followed (Judgement.bindInTurn_holds (h.evaluates he) 0 (Agreement.same_each 0 _) trivial)
    fun _ _ _ _ => rfl

/-- Related evaluators go on from a step in a related way. -/
theorem finish (step : Step) : R Value (step.finish eval) (step.finish eval') := by
  cases step with
  | done value => exact h.pure value
  | next form frame => exact he form frame

end Given

/-! ## Evaluators -/

theorem evaluate (steps : Nat) (form : Value) (frame : FrameId) :
    R Value (evaluate steps form frame) (evaluate steps form frame) :=
  h.of_evaluates (h.judgement.evaluate_holds (fun he => h.runs fun form => h.of_evaluates he form rootFrame) steps) form
    frame

end Compositional

namespace Continuing

variable {R : ∀ α : Type, Run α → Run α → Prop} (h : Continuing R)
include h

/-! ## More steps -/

theorem expandAll {call call' : Caller}
    (hc : ∀ function args frame, R Value (call function args frame) (call' function args frame)) {m n : Nat}
    (hmn : m ≤ n) : ∀ (form : Value) (frame : FrameId),
      R Value (expandAll call m form frame) (expandAll call' n form frame) := by
  have hsucc : ∀ {call call' : Caller} {m n : Nat},
      (∀ function args frame, R Value (call function args frame) (call' function args frame)) →
      (∀ form frame, R Value (SmallLisp.expandAll call m form frame) (SmallLisp.expandAll call' n form frame)) →
      ∀ form frame, R Value (SmallLisp.expandAll call (m + 1) form frame)
        (SmallLisp.expandAll call' (n + 1) form frame) :=
    fun hc hx form frame => h.of_followed (Judgement.expandAll_succ_holds (h.calls hc)
      (fun _ _ _ frame hform => h.followed (hform.2 ▸ hx _ frame) (Agreement.same_self _)) 0 frame ⟨trivial, rfl⟩)
      fun _ _ _ hvw => hvw.2
  exact h.inSteps (fun _ _ => rfl) (fun _ _ => rfl) (fun _ ih => hsucc (fun _ _ _ => h.right (hc _ _ _)) ih)
    (fun _ _ _ ih => hsucc hc ih) hmn

section Given

variable {eval eval' : Evaluator} (he : ∀ form frame, R Value (eval form frame) (eval' form frame))
include he

theorem callFunction {m n : Nat} (hmn : m ≤ n) (function : Value) (args : List Value) : ∀ frame : FrameId,
    R Value (callFunction eval m function args frame) (callFunction eval' n function args frame) := by
  have hsucc : ∀ {eval eval' : Evaluator} {m n : Nat}, (∀ form frame, R Value (eval form frame) (eval' form frame)) →
      (∀ (called : Value × List Value) frame, R Value (SmallLisp.callFunction eval m called.1 called.2 frame)
        (SmallLisp.callFunction eval' n called.1 called.2 frame)) →
      ∀ (called : Value × List Value) frame, R Value (SmallLisp.callFunction eval (m + 1) called.1 called.2 frame)
        (SmallLisp.callFunction eval' (n + 1) called.1 called.2 frame) :=
    fun he hc called frame => h.of_calls
      (Judgement.callWith_succ_holds (h.evaluates he) (h.runs fun form => he form rootFrame)
      (h.calls fun function args => hc (function, args))) called.1 called.2 frame
  exact h.inSteps (x := fun n called => SmallLisp.callFunction eval n called.1 called.2)
    (y := fun n called => SmallLisp.callFunction eval' n called.1 called.2) (fun _ _ => rfl) (fun _ _ => rfl)
    (fun _ ih => hsucc (fun _ _ => h.right (he _ _)) ih) (fun _ _ _ ih => hsucc he ih) hmn (function, args)

theorem reduce {m n : Nat} (hmn : m ≤ n) (form : Value) (frame : FrameId) :
    R Step (reduce m eval form frame) (reduce n eval' form frame) := by
  have he' := h.evaluates he
  have hc := h.callFunction he (Nat.succ_le_succ hmn)
  have hx : h.judgement.Expands (SmallLisp.expandAll (SmallLisp.callFunction eval (m + 1)) (m + 1))
      (SmallLisp.expandAll (SmallLisp.callFunction eval' (n + 1)) (n + 1)) := fun _ _ _ frame hform =>
    h.followed (hform.2 ▸ h.expandAll hc (Nat.succ_le_succ hmn) _ frame) (Agreement.same_self _)
  refine h.of_followed (Judgement.reduceWith_of_calls he' (Judgement.evalPlain_holds he') (h.calls hc) hx
    (n := 0) ⟨trivial, rfl⟩ trivial) fun _ _ _ hstep => ?_
  cases hstep with
  | done hv => rw [hv.2]
  | next hform => rw [hform.2]

end Given

theorem evaluate {m n : Nat} (hmn : m ≤ n) : ∀ (form : Value) (frame : FrameId),
    R Value (evaluate m form frame) (evaluate n form frame) := by
  have hsucc : ∀ {m n : Nat}, m ≤ n →
      (∀ form frame, R Value (SmallLisp.evaluate m form frame) (SmallLisp.evaluate n form frame)) →
      ∀ form frame, R Value (SmallLisp.evaluate (m + 1) form frame) (SmallLisp.evaluate (n + 1) form frame) := by
    intro m n hmn ih form frame
    rw [evaluate_succ, evaluate_succ]
    exact h.bind (h.reduce ih hmn form frame) (h.finish ih)
  exact h.inSteps (fun _ _ => rfl) (fun _ _ => rfl) (fun n ih => hsucc (Nat.le_refl n) ih)
    (fun _ _ hmn ih => hsucc hmn ih) hmn

end Continuing

/-! ## Closed properties -/

namespace ClosedBesideFrames

variable {P : ∀ α : Type, Run α → Prop} (h : ClosedBesideFrames P)
include h

theorem primitive {eval : Evaluator} {call : Caller} (hc : ∀ function args frame, P Value (call function args frame))
    (he : ∀ form, P Value (eval form rootFrame)) (p : Primitive) (frame : FrameId) (args : List Value) :
    P Value (p.run eval call frame args) :=
  (h.compositional.primitive (fun function args frame => ⟨hc function args frame, hc function args frame⟩)
    (fun form => ⟨he form, he form⟩) p frame args).1

end ClosedBesideFrames

theorem Closed.evaluate {P : ∀ α : Type, Run α → Prop} (h : Closed P) (steps : Nat) (form : Value) (frame : FrameId) :
    P Value (evaluate steps form frame) :=
  (h.compositional.evaluate steps form frame).1

end SmallLisp.Run

namespace SmallLisp

open Run (Below below_continuing)

/-! ## More steps -/

/-- More steps change nothing but that a run may end. -/
theorem evaluate_below {m n : Nat} (hmn : m ≤ n) (form : Value) (frame : FrameId) :
    Below (evaluate m form frame) (evaluate n form frame) :=
  below_continuing.evaluate hmn form frame

theorem callFunction_below {m n k l : Nat} (hmn : m ≤ n) (hkl : k ≤ l) (function : Value) (args : List Value)
    (caller : FrameId) :
    Below (callFunction (evaluate m) k function args caller) (callFunction (evaluate n) l function args caller) :=
  below_continuing.callFunction (evaluate_below hmn) hkl function args caller

/-- A form ends in one way only, in however many steps. -/
theorem evaluate_unique {m n : Nat} {form : Value} {frame : FrameId} {s : State}
    (hm : (evaluate m form frame s).Ended) (hn : (evaluate n form frame s).Ended) :
    evaluate m form frame s = evaluate n form frame s := by
  rcases Nat.le_total m n with h | h
  · exact (evaluate_below h form frame).eq_of_ended hm
  · exact ((evaluate_below h form frame).eq_of_ended hn).symm

end SmallLisp
