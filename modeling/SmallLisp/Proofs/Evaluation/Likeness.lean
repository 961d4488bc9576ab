/-
Evaluation does not tell alike forms apart. That runs from states that agree come to ends that agree is a judgement
(`Likeness.judgement`). So from forms that agree, in states that agree, the evaluator comes to ends that agree
(`evaluate_runsAlike`).
-/
import SmallLisp.Proofs.Evaluation.Judgement
import SmallLisp.Proofs.Primitive.Likeness

namespace SmallLisp

namespace Likeness

open Meets

variable {L : Likeness} {n : Nat}

/-! ## Names and parameters -/

theorem symbolNames_meets {forms forms' : List Value} (h : L.AllAlike n forms forms') :
    L.Meets n (Parameters.symbolNames forms) (Parameters.symbolNames forms') Eq := by
  induction h with
  | nil => exact .pure rfl
  | cons h _ ih =>
    have hform := h
    cases h with
    | symbol name =>
      refine .bind ih ?_
      rintro names _ rfl
      exact .pure rfl
    | _ => exact failInspecting hform _ _

theorem parametersOfForms_meets {forms forms' : List Value} (h : L.AllAlike n forms forms') :
    L.Meets n (Parameters.ofForms forms) (Parameters.ofForms forms') Eq := by
  refine .bind (symbolNames_meets h) ?_
  rintro names _ rfl
  split
  · exact .pure rfl
  · exact failKind _ _

section Binding

theorem parameterLabel_meets {v w : Value} (h : L.Alike n v w) :
    L.Meets n (parameterLabel v) (parameterLabel w) Eq := by
  have hvw := h
  cases h with
  | symbol | keyword | str => exact .pure rfl
  | _ => exact inspected hvw

theorem bindForm_meets {name v w : Value} {as bs : Bindings} (hname : L.Alike n name name) (hvw : L.Alike n v w)
    (h : L.BindingsAlike n as bs) : L.Meets n (as.bindForm name v) (bs.bindForm name w) (L.BindingsAlike n) := by
  unfold Bindings.bindForm
  split
  · exact .pure (h.bind _ hvw)
  · exact failInspecting hname _ _

/-- Arguments that agree are bound alike, or they are of a number that is wrong. -/
theorem bindForms_meets : ∀ {forms args args' : List Value} {as bs : Bindings}, (∀ form ∈ forms, L.Alike n form form) →
    L.AllAlike n args args' → L.BindingsAlike n as bs →
    L.Meets n (bindForms as forms args) (bindForms bs forms args') (L.BindingsAlike n)
  | [], _, _, _, _, _, .nil, h => .pure h
  | [], _, _, _, _, _, .cons hextra hextras, _ => by
    refine .bind (.mapM_eq (P := L.Alike n) (fun _ _ hv => inspected hv) (.cons hextra hextras)) ?_
    rintro texts _ rfl
    exact failArity _ _
  | form :: forms, args, args', as, bs, hforms, hargs, h => by
    obtain ⟨hform, hrest⟩ := List.forall_mem_cons.1 hforms
    unfold bindForms
    split
    · cases forms with
      | nil => exact failOwn (by simp [Fault.IsOwn]) _
      | cons rest forms => exact bindForm_meets (hrest rest List.mem_cons_self) (alike_ofList hargs) h
    · cases hargs with
      | nil =>
        have hmissing : ∀ v ∈ (form :: forms).takeWhile (!isRestMark ·), L.Alike n v v :=
          fun v hv => hforms v (List.takeWhile_subset _ hv)
        refine .bind (.mapM_eq (fun _ _ hv => parameterLabel_meets hv) (List.forall₂_same.2 hmissing)) ?_
        rintro texts _ rfl
        exact failArity _ _
      | cons harg hargs => exact .bind (bindForm_meets hform harg h) fun _ _ h => bindForms_meets hrest hargs h

theorem bind_meets (params : Parameters) {args args' : List Value} (h : L.AllAlike n args args') :
    L.Meets n (params.bind args) (params.bind args') (L.BindingsAlike n) := by
  refine bindForms_meets (fun form hform => ?_) h .nil
  obtain ⟨name, -, rfl⟩ := List.mem_map.1 hform
  exact .symbol name

end Binding

/-- A new frame may be referred to. -/
theorem newFrame_runsAlike {outer : FrameId} (houter : L.refers n outer) {as bs : Bindings}
    (h : L.BindingsAlike n as bs) :
    L.RunsAlike n (Run.newFrame (some outer) as) (Run.newFrame (some outer) bs) fun m a b => a = b ∧ L.refers m a := by
  intro s t hst
  refine ⟨n + 1, Nat.le_succ n, .value ⟨?_, ?_⟩ (hst.addFrame houter h)⟩
  · rw [hst.size_left, hst.size_right]
  · rw [hst.size_left]
    exact L.refers_new n

/-! ## The judgement -/

/-- From states that agree, runs come to ends that agree. Evaluations are in frames that may be referred to. -/
abbrev judgement (L : Likeness) : Judgement where
  toAgreement := L.agreement
  Holds n x y Q := L.RunsAlike n x y Q
  within := L.refers
  bound := L.BindingsAlike
  within_mono := L.refers_mono
  refers_of_within h := h
  bound_nil := .nil
  bound_single _ _ _ h := .cons ⟨rfl, h⟩ .nil
  pure := .pure
  bind := .bind
  handle h hf := .handle h fun m hnm cause cause' hcause => hf m hnm cause cause' hcause.caught
  halt := .halt .steps
  failKind cause _ := .of_relates (failKind cause _)
  failArity cause _ := .of_relates (failArity cause _)
  failUnbound _ _ := .of_relates (failOwn (by simp [Fault.IsOwn]) _)
  failInspecting cause _ h := .of_relates (failInspecting h cause _)
  getting frame name := .of_relates fun _ _ hst => .value (hst.get? frame name) hst
  define name _ _ _ h := .of_relates (define _ name h)
  newFrame houter h := newFrame_runsAlike houter h
  requireKey name _ _ h := .of_relates ((requireKey h name).weaken fun _ _ _ => h)
  parameters h := .of_relates (parametersOfForms_meets h)
  arguments params _ _ h := .of_relates (bind_meets params h)

/-! ## The evaluator -/

theorem primitives_run {eval eval' : Evaluator} (h : L.EvaluatorsAlike eval eval') :
    L.judgement.Runs (Primitive.run eval) (Primitive.run eval') := by
  intro call call' hc n p isMacro info info' args args' frame hp hargs
  cases hp with
  | primitive _ hadmits => exact primitive_runsAlike h hc hadmits hargs

/-- From forms that agree, evaluated in the same frame of states that agree, the evaluator comes to ends that
agree, in the same number of steps. -/
theorem evaluate_runsAlike : ∀ steps : Nat, L.EvaluatorsAlike (evaluate steps) (evaluate steps) :=
  L.judgement.evaluate_holds primitives_run

end Likeness

end SmallLisp
