/-
Evaluation keeps states sound, and its faults are regular. Soundness of values is hereditary, and that runs are safe
is a judgement (`safety`): the parameters of a function can always be bound to arguments, unless their number
is wrong. Main statement: `evaluate_safe`.
-/
import SmallLisp.Proofs.Evaluation.Judgement
import SmallLisp.Proofs.Primitive.Soundness

namespace SmallLisp

open Run (Safe Ensures)
open Run.Safe
open Value (AllSound)

variable {files : Files}

/-! ## Parameters -/

theorem symbolNames_safe : ∀ forms : List Value, Safe files (Parameters.symbolNames forms) fun _ => True
  | [] => .pure trivial
  | form :: forms => by
    unfold Parameters.symbolNames
    split
    · exact .pure trivial
    · rename_i heq
      cases heq
      exact .bind (symbolNames_safe forms) fun _ _ => .pure trivial
    · exact failInspecting _ _ _

theorem parametersOfForms_safe (forms : List Value) : Safe files (Parameters.ofForms forms) fun _ => True := by
  refine .bind (symbolNames_safe forms) fun names _ => ?_
  split
  · exact .pure trivial
  · exact failKind _ _

theorem isRestMark_of_ne {name : String} (h : name ≠ restMark) : isRestMark (.symbol name) = false :=
  beq_eq_false_iff_ne.2 h

section Binding

variable {I : State → Prop} {F : Fault → Prop} {P : Value → Prop}
  (hinspected : ∀ v, Ensures I (Run.inspected v) (fun _ => True) F) (harity : ∀ cause, F (.arity cause))
include hinspected

theorem parameterLabel_ensures (form : Value) : Ensures I (parameterLabel form) (fun _ => True) F := by
  unfold parameterLabel
  split
  · exact .pure trivial
  · exact .pure trivial
  · exact .pure trivial
  · exact hinspected _

include harity

/-- The names of a parameter list are bound from the left; a rest mark has a name after it, so nothing
but the number of arguments can be wrong. -/
theorem bindNames_ensures (hlist : ∀ args, (∀ v ∈ args, P v) → P (.ofList args)) (rest : Option String) :
    ∀ (required : List String) {bindings : Bindings} {args : List Value},
      restMark ∉ required → bindings.Each P → (∀ v ∈ args, P v) →
      Ensures I (bindForms bindings ((required ++ match rest with
        | none => []
        | some name => [restMark, name]).map .symbol) args) (Bindings.Each P) F
  | [], bindings, args, _, hbindings, hargs => by
    cases rest with
    | none =>
      cases args with
      | nil => exact .pure hbindings
      | cons extra extras => exact .bind (.mapM fun v _ => hinspected v) fun _ _ => .fail (harity _) _
    | some name => exact .pure (hbindings.bind name (hlist args hargs))
  | name :: required, bindings, args, hmark, hbindings, hargs => by
    have hname : name ≠ restMark := fun h => hmark (h ▸ List.mem_cons_self ..)
    have hrequired : restMark ∉ required := fun h => hmark (List.mem_cons_of_mem _ h)
    rw [List.cons_append, List.map_cons]
    unfold bindForms
    rw [isRestMark_of_ne hname, if_neg Bool.false_ne_true]
    cases args with
    | nil =>
      exact .bind (.mapM fun form _ => parameterLabel_ensures hinspected form) fun _ _ => .fail (harity _) _
    | cons arg args =>
      obtain ⟨harg, hargs⟩ := List.forall_mem_cons.1 hargs
      exact bindNames_ensures hlist rest required hrequired (hbindings.bind name harg) hargs

/-- Parameters can be bound, unless the number of arguments is wrong. -/
theorem Parameters.bind_ensures (hlist : ∀ args, (∀ v ∈ args, P v) → P (.ofList args)) (params : Parameters)
    {args : List Value} (hargs : ∀ v ∈ args, P v) : Ensures I (params.bind args) (Bindings.Each P) F :=
  bindNames_ensures hinspected harity hlist params.rest params.required params.restMark_notMem
    (Bindings.each_nil P) hargs

end Binding

theorem Parameters.bind_safe (params : Parameters) {args : List Value} (h : AllSound args) :
    Safe files (params.bind args) Bindings.Sound :=
  params.bind_ensures inspected .arity (fun _ => Value.sound_ofList) h

/-! ## The judgement -/

theorem Value.sound_hereditary : Value.Hereditary Value.Sound Value.Admissible where
  parts h hpart := (sound_iff.1 h).2 _ hpart
  nil := sound_nil
  symbol := sound_symbol
  list := sound_ofList
  vector := sound_ofVector
  map h := sound_ofEntries (Entries.sound_ofList fun entry he => ⟨(h entry he).1.2, (h entry he).2, (h entry he).1.1⟩)
  closure _ _ _ hbody := sound_closure.2 ⟨hbody, sound_nil⟩
  asMacro := Sound.asMacro

/-- Soundness of values as what evaluation keeps up. -/
abbrev soundness : Agreement := .ofProperty Value.sound_hereditary

/-- The first of two runs is safe, and comes to what is related to something. -/
def safety (files : Files) : Judgement where
  toAgreement := soundness
  Holds n x _ Q := Safe files x fun a => ∃ b, Q n a b
  within _ _ := True
  bound _ as bs := as.Sound ∧ as = bs
  within_mono _ h := h
  refers_of_within h := h
  bound_nil := ⟨Bindings.each_nil _, rfl⟩
  bound_single _ _ _ h := ⟨List.forall_mem_singleton.2 h.1, by rw [h.2]⟩
  pure h := .pure ⟨_, h⟩
  bind h hf := .bind h fun _ hrelated => hrelated.elim fun _ hab => hf _ (Nat.le_refl _) _ _ hab
  handle h hf := .handle h fun fault hfault => hf _ (Nat.le_refl _) fault fault ⟨hfault.caught_sound, rfl⟩
  halt _ := .halt _ _
  failKind cause _ := failKind cause _
  failArity cause _ := .fail (.arity cause) _
  failUnbound name _ := .fail (.unbound name) _
  failInspecting cause _ _ := failInspecting _ cause _
  getting frame name s hs := by
    refine ⟨hs, s.get? frame name, ?_⟩
    cases hget : s.get? frame name with
    | none => exact .none
    | some v => exact .some ⟨hs.get? hget, rfl⟩
  define name _ _ _ h := (define _ name h.1).weaken fun _ _ => ⟨(), trivial⟩
  newFrame _ h := (newFrame _ h.1).weaken fun frame _ => ⟨frame, rfl, trivial⟩
  requireKey name v w h := (requireKey name v).weaken fun _ hadmissible => ⟨(), ⟨hadmissible, h.1⟩, h.2⟩
  parameters _ := (parametersOfForms_safe _).weaken fun params _ => ⟨params, rfl⟩
  arguments params _ _ h := (params.bind_safe (List.forall₂_and_eq_iff.1 h).1).weaken fun _ hbindings =>
    ⟨_, hbindings, rfl⟩

/-- Calls are safe if the judgement says so. -/
theorem calls_safe {call call' : Caller} (hc : (safety files).Calls call call') (function : Value) (args : List Value)
    (frame : FrameId) (hfunction : function.Sound) (hargs : AllSound args) :
    Safe files (call function args frame) Value.Sound :=
  (hc 0 frame ⟨hfunction, rfl⟩ (List.forall₂_and_eq_iff.2 ⟨hargs, rfl⟩)).weaken fun _ ⟨_, hv, _⟩ => hv

/-! ## The evaluator -/

/-- Sound forms have sound values, in sound states; their faults are regular. -/
theorem evaluate_safe (steps : Nat) (form : Value) (frame : FrameId) (hform : form.Sound) :
    Safe files (evaluate steps form frame) Value.Sound := by
  have hruns : ∀ {eval eval' : Evaluator}, (safety files).Evaluates eval eval' →
      (safety files).Runs (Primitive.run eval) (Primitive.run eval') := by
    intro eval eval' h call call' hc n p isMacro info info' args args' frame _ hargs
    have he : ∀ form, form.Sound → Safe files (eval form rootFrame) Value.Sound := fun form hform =>
      (h 0 ⟨hform, rfl⟩ trivial).weaken fun _ ⟨_, hv, _⟩ => hv
    exact (primitive_run_safe he (calls_safe hc) p (List.forall₂_and_eq_iff.1 hargs).1).weaken fun v hv => ⟨v, hv, rfl⟩
  exact ((safety files).evaluate_holds hruns steps 0 ⟨hform, rfl⟩ trivial).weaken fun _ ⟨_, hv, _⟩ => hv

end SmallLisp
