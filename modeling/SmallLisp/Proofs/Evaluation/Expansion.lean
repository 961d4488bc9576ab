/-
Expansion of macros. A form that calls a macro is expanded until it calls none, each time in the state that
the call before has led to; the macros may do whatever functions do, and bind and unbind macros as well. Main
statement: a form comes to what its expansion comes to, in the state that expanding it has led to
(`evaluate_expansion`).
-/
import SmallLisp.Proofs.Evaluation.Calling

namespace SmallLisp

open Run (Climbs Comes below_continuing comes_bind comes_bind_congr comes_bind_of_value comes_bind_of_fault
  comes_iff_of_eq comes_value_iff comes_fault_iff)

/-! ## Forms that are expanded -/

/-- The expansion of a form, for each number of steps, as the evaluation of the form begins with it. -/
def expanding (form : Value) (frame : FrameId) (n : Nat) : Run Value :=
  expandAll (callFunction (evaluate n) (n + 1)) (n + 1) form frame

section Expanding

variable {s s' : State} {frame : FrameId} {form g function : Value} {args : List Value}

theorem expandAll_climbing {m n k l : Nat} (hmn : m ≤ n) (hkl : k ≤ l) (form : Value) (frame : FrameId) :
    (expandAll (callFunction (evaluate m) (m + 1)) k form frame).Below
      (expandAll (callFunction (evaluate n) (n + 1)) l form frame) :=
  below_continuing.expandAll (fun f args caller => callFunction_below hmn (Nat.succ_le_succ hmn) f args caller) hkl
    form frame

theorem expanding_climbs (form : Value) (frame : FrameId) : Climbs (expanding form frame) :=
  fun _ _ hmn => expandAll_climbing hmn (Nat.succ_le_succ hmn) form frame

theorem calling_climbs (function : Value) (args : List Value) (caller : FrameId) :
    Climbs (calling function args caller) :=
  fun _ _ hmn => callFunction_below hmn hmn function args caller

/-- A form that calls no macro is its own expansion. -/
theorem expanding_of_none (h : macroCall? s frame form = none) (n : Nat) :
    expanding form frame n s = .value form s := by
  simp only [expanding, expandAll, h]

/-- A form that calls a macro has the expansion of what the macro makes of it. -/
theorem comes_expanding_of_call (h : macroCall? s frame form = some (function, args)) (o : Outcome Value) :
    Comes (expanding form frame) s o ↔
      Comes (fun n => do expanding (← calling function args frame n) frame n) s o := by
  have hstep : ∀ n, expanding form frame n s = (do
      expandAll (callFunction (evaluate n) (n + 1)) n (← callFunction (evaluate n) (n + 1) function args frame) frame :
        Run Value) s := by
    intro n
    simp only [expanding, expandAll, h]
  have hcall : Climbs fun n => callFunction (evaluate n) (n + 1) function args frame :=
    fun _ _ hmn => callFunction_below hmn (Nat.succ_le_succ hmn) function args frame
  have hrest : ∀ g, Climbs fun n => expandAll (callFunction (evaluate n) (n + 1)) n g frame :=
    fun g _ _ hmn => expandAll_climbing hmn hmn g frame
  refine (comes_iff_of_eq (expanding_climbs form frame) (hcall.bind hrest) (m := 0) (j := 0) (k := 0)
    (fun n _ => hstep n) o).trans ?_
  refine comes_bind_congr hcall (calling_climbs function args frame) hrest (fun g => expanding_climbs g frame)
    (comes_callFunction_succ function args frame) (fun g t _ => ?_) o
  -- one step less to expand the rest with makes no difference
  exact Run.comes_of_interleaved (fun n => expandAll_climbing (Nat.le_refl n) (Nat.le_succ n) g frame)
    (fun n => expandAll_climbing (Nat.le_succ n) (Nat.le_refl (n + 1)) g frame)

/-- What is left calls no macro. -/
theorem macroCall?_of_expandAll {call : Caller} : ∀ {steps : Nat} {form : Value} {s : State},
    expandAll call steps form frame s = .value g s' → macroCall? s' frame g = none
  | steps + 1, form, s, h => by
    unfold expandAll at h
    split at h
    · next hnone =>
      cases h
      exact hnone
    · obtain ⟨_, _, _, hrest⟩ := Run.bind_eq_value.1 h
      exact macroCall?_of_expandAll hrest

/-! ## Forms that are evaluated -/

/-- The value of a form that is expanded. -/
def expandedValue (steps : Nat) (eval : Evaluator) (form : Value) (frame : FrameId) : Run Value :=
  match form with
  | .list (head :: parts) _ =>
    match SpecialForm.ofHead? head with
    | some special => special.value eval (expandAll (callFunction eval (steps + 1)) (steps + 1)) parts frame
    | none => callValue eval (callFunction eval (steps + 1)) head parts frame
  | form => evalPlain eval form frame

/-- Every form is expanded first; a form that is no list, or an empty one, expands to itself. -/
theorem evaluate_eq_expanding (n : Nat) (form : Value) (frame : FrameId) (s : State) :
    evaluate (n + 1) form frame s =
      (do expandedValue n (evaluate n) (← expanding form frame n) frame : Run Value) s := by
  have hplain : ∀ form, macroCall? s frame form = none → formValue n (evaluate n) form frame =
      evalPlain (evaluate n) form frame → expandedValue n (evaluate n) form frame = evalPlain (evaluate n) form frame →
      formValue n (evaluate n) form frame s =
        (do expandedValue n (evaluate n) (← expanding form frame n) frame : Run Value) s := by
    intro form hnone hform hvalue
    rw [Run.bind_of_value (expanding_of_none hnone n), hform, hvalue]
  rw [evaluate_eq_formValue]
  cases form with
  | list items info =>
    cases items with
    | nil => exact hplain _ rfl rfl rfl
    | cons head parts =>
      refine congrFun (bind_congr fun g => ?_) s
      cases g with
      | list items => cases items <;> rfl
      | _ => rfl
  | _ => exact hplain _ rfl rfl rfl

/-- A form comes to what its expansion comes to. -/
theorem comes_evaluate_of_expanding (h : Comes (expanding form frame) s (.value g s')) (o : Outcome Value) :
    Comes (fun n => evaluate n form frame) s o ↔ Comes (fun n => evaluate n g frame) s' o := by
  obtain ⟨m, hm⟩ := (expanding_climbs form frame).comes h
  refine comes_iff_of_eq (evaluate_climbs form frame) (evaluate_climbs g frame) (m := m) (j := 1) (k := 1)
    (fun n hn => ?_) o
  have hnone : macroCall? s' frame g = none := macroCall?_of_expandAll (hm n hn)
  rw [evaluate_eq_expanding, evaluate_eq_expanding, Run.bind_of_value (hm n hn),
    Run.bind_of_value (expanding_of_none hnone n)]

/-- A fault of a macro is the fault of the form. -/
theorem comes_evaluate_of_expanding_fault {fault : Fault} (h : Comes (expanding form frame) s (.fault fault s')) :
    Comes (fun n => evaluate n form frame) s (.fault fault s') := by
  obtain ⟨n, hn⟩ := comes_fault_iff.1 h
  refine comes_fault_iff.2 ⟨n + 1, ?_⟩
  rw [evaluate_eq_expanding]
  exact Run.bind_eq_fault.2 (.inl hn)

/-- Evaluating a form is expanding it, and evaluating what is left. -/
theorem comes_evaluate_iff (o : Outcome Value) : Comes (fun n => evaluate n form frame) s o ↔
    Comes (fun n => do evaluate n (← expanding form frame n) frame) s o := by
  rw [comes_bind (expanding_climbs form frame) fun g => evaluate_climbs g frame]
  constructor
  · intro ho
    obtain ⟨n, hn⟩ := (evaluate_climbs form frame).comes ho
    have hlast := hn (n + 1) (Nat.le_succ n)
    rw [evaluate_eq_expanding, Run.bind_apply] at hlast
    cases hexpanding : expanding form frame n s with
    | value g s' =>
      have hg : Comes (expanding form frame) s (.value g s') := comes_value_iff.2 ⟨n, hexpanding⟩
      exact .inr ⟨g, s', hg, (comes_evaluate_of_expanding hg o).1 ho⟩
    | fault fault s' =>
      rw [hexpanding] at hlast
      exact .inl ⟨fault, s', comes_fault_iff.2 ⟨n, hexpanding⟩, hlast.symm⟩
    | halted need s' =>
      rw [hexpanding] at hlast
      have hend := ho.ended
      rw [← hlast] at hend
      exact hend.elim
  · rintro (⟨fault, s', hfault, rfl⟩ | ⟨g, s', hg, ho⟩)
    · exact comes_evaluate_of_expanding_fault hfault
    · exact (comes_evaluate_of_expanding hg o).2 ho

/-- A form that calls a macro comes to what the form comes to that the macro makes of it. -/
theorem comes_evaluate_of_call (h : macroCall? s frame form = some (function, args)) (o : Outcome Value) :
    Comes (fun n => evaluate n form frame) s o ↔
      Comes (fun n => do evaluate n (← calling function args frame n) frame) s o := by
  have hcall := calling_climbs function args frame
  have heval := fun g => evaluate_climbs g frame
  have hexpand := fun g => expanding_climbs g frame
  have hassoc : ∀ n, (do evaluate n (← (do expanding (← calling function args frame n) frame n)) frame : Run Value) =
      (do let g ← calling function args frame n; evaluate n (← expanding g frame n) frame) :=
    fun n => bind_assoc (calling function args frame n) _ fun g => (evaluate n g frame : Run Value)
  calc Comes (fun n => evaluate n form frame) s o
    _ ↔ Comes (fun n => do evaluate n (← expanding form frame n) frame) s o := comes_evaluate_iff o
    _ ↔ Comes (fun n => do evaluate n (← (do expanding (← calling function args frame n) frame n)) frame) s o :=
      comes_bind_congr (hexpand form) (hcall.bind hexpand) heval heval (comes_expanding_of_call h)
        (fun _ _ _ _ => Iff.rfl) o
    _ ↔ Comes (fun n => do evaluate n (← calling function args frame n) frame) s o := by
      simp only [hassoc]
      exact comes_bind_congr hcall hcall (fun g => (hexpand g).bind heval) heval (fun _ => Iff.rfl)
        (fun g t _ o => (comes_evaluate_iff o).symm) o

/-- A form comes to what the form comes to that its macro is known to make of it. -/
theorem comes_evaluate_of_calling (h : macroCall? s frame form = some (function, args))
    (hg : Comes (calling function args frame) s (.value g s')) (o : Outcome Value) :
    Comes (fun n => evaluate n form frame) s o ↔ Comes (fun n => evaluate n g frame) s' o :=
  (comes_evaluate_of_call h o).trans
    (comes_bind_of_value (calling_climbs function args frame) (fun g => evaluate_climbs g frame) hg o)

theorem comes_evaluate_of_calling_fault (h : macroCall? s frame form = some (function, args)) {fault : Fault}
    (hfault : Comes (calling function args frame) s (.fault fault s')) (o : Outcome Value) :
    Comes (fun n => evaluate n form frame) s o ↔ o = .fault fault s' :=
  (comes_evaluate_of_call h o).trans
    (comes_bind_of_fault (calling_climbs function args frame) (fun g => evaluate_climbs g frame) hfault o)

/-! ## Forms and their expansions -/

/-- Evaluating a form comes to the same as evaluating its expansion where expanding it has led to, and expanding
the expansion once more leaves it as it is and changes nothing. A fault of the expansion is all that the
evaluation comes to, and an evaluation that ends has begun with an expansion that ends. Where `macroexpand` is no
macro, it shows the same expansion as evaluation makes. -/
theorem evaluate_expansion (form : Value) (frame : FrameId) (s : State) :
    (∀ g s', Comes (expanding form frame) s (.value g s') →
      (∀ o, Comes (fun n => evaluate n form frame) s o ↔ Comes (fun n => evaluate n g frame) s' o) ∧
        ∀ n, expanding g frame n s' = .value g s') ∧
    (∀ fault s', Comes (expanding form frame) s (.fault fault s') →
      ∀ o, Comes (fun n => evaluate n form frame) s o ↔ o = .fault fault s') ∧
    (∀ o, Comes (fun n => evaluate n form frame) s o → ∃ o', Comes (expanding form frame) s o') ∧
    ((∀ v, s.get? frame "macroexpand" = some v → v.isMacro = false) → ∀ info o,
      Comes (fun n => evaluate n (.list [.symbol "macroexpand", form] info) frame) s o ↔
        Comes (expanding form frame) s o) := by
  refine ⟨fun g s' h => ⟨comes_evaluate_of_expanding h, ?_⟩, fun fault s' h o => ?_, fun o ho => ?_, fun h info o => ?_⟩
  · obtain ⟨m, hm, -⟩ := h
    exact expanding_of_none (macroCall?_of_expandAll hm)
  · have hfault := comes_evaluate_of_expanding_fault h
    constructor
    · rintro ⟨n, rfl, hend⟩
      -- the form ends in one way only
      obtain ⟨m, hm⟩ := comes_fault_iff.1 hfault
      exact (evaluate_unique hend (by rw [hm]; trivial)).trans hm
    · rintro rfl
      exact hfault
  · rw [comes_evaluate_iff, comes_bind (expanding_climbs form frame) fun g => evaluate_climbs g frame] at ho
    rcases ho with ⟨fault, s', hfault, -⟩ | ⟨g, s', hg, -⟩
    · exact ⟨_, hfault⟩
    · exact ⟨_, hg⟩
  · have hname : SpecialForm.ofName? "macroexpand" = some .expand := SpecialForm.ofName?_name .expand
    refine comes_iff_of_eq (evaluate_climbs _ _) (expanding_climbs form frame) (m := 0) (j := 1) (k := 0)
      (fun n _ => ?_) o
    rw [evaluate_unexpanded h, hname]
    rfl

end Expanding

/-- A macro that makes a function of its own name and then a call of it. -/
def redefining : Value :=
  .closure ⟨[], none, by decide⟩
    [.ofList [.symbol "eval", .ofList [.symbol "quote", .ofList [.symbol "def!", .symbol "m",
      .ofList [.symbol "fn*", .ofList [], .int 7]]]],
    .ofList [.symbol "quote", .ofList [.symbol "m"]]] rootFrame true .nil

theorem evaluate_expansion_redefining :
    let s := (State.initial [] (.tree []) "" true 0).define rootFrame "m" redefining
    let form : Value := .ofList [.symbol "m"]
    ∃ s' t, Comes (expanding form rootFrame) s (.value form s') ∧ macroCall? s rootFrame form ≠ none ∧
      Comes (fun n => evaluate n form rootFrame) s (.value (.int 7) t) ∧
      Comes (fun n => evaluate n (.ofList [.symbol "macroexpand", form]) rootFrame) s (.value form s') := by
  intro s form
  obtain ⟨s', hs', t, ht⟩ : ∃ s', expanding form rootFrame 6 s = .value form s' ∧
      ∃ t, evaluate 3 form rootFrame s' = .value (.int 7) t := ⟨_, rfl, _, rfl⟩
  obtain ⟨hvalue, -, -, hshown⟩ := evaluate_expansion form rootFrame s
  have hexpanding : Comes (expanding form rootFrame) s (.value form s') := comes_value_iff.2 ⟨6, hs'⟩
  refine ⟨s', t, hexpanding, by decide, ?_, ?_⟩
  · exact ((hvalue form s' hexpanding).1 _).2 (comes_value_iff.2 ⟨3, ht⟩)
  · exact (hshown (fun v hv => by cases hv) .nil _).2 hexpanding

end SmallLisp
