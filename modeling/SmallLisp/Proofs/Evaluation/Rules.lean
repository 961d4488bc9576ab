/-
Rules of evaluation: what rows of forms, symbols and calls come to, as equations from a given state. A
call of a named function evaluates its arguments from the left and then calls the function
(`evaluate_call`); a row of forms fails as its first failing form does (`evalEach_eq_fault`).
-/
import SmallLisp.Proofs.Evaluation.Compositional
import SmallLisp.Proofs.Run.Limit

namespace SmallLisp

open Run (Climbs)

/-! ## Runs and rows of forms -/

theorem Run.bind_eq_value {α β : Type} {x : Run α} {f : α → Run β} {s s' : State} {b : β} :
    (x >>= f) s = .value b s' ↔ ∃ a t, x s = .value a t ∧ f a t = .value b s' := by
  rw [bind_apply]
  cases x s with
  | value a t => simp [and_assoc]
  | fault | halted => simp

theorem Run.bind_of_value {α β : Type} {x : Run α} {f : α → Run β} {s t : State} {a : α} (h : x s = .value a t) :
    (x >>= f) s = f a t := by
  simp only [bind_apply, h]

theorem Run.bind_eq_fault {α β : Type} {x : Run α} {f : α → Run β} {s s' : State} {fault : Fault} :
    (x >>= f) s = .fault fault s' ↔ x s = .fault fault s' ∨ ∃ a t, x s = .value a t ∧ f a t = .fault fault s' := by
  rw [bind_apply]
  cases x s with
  | value a t => simp [and_assoc]
  | fault | halted => simp

section Rows

variable {eval : Evaluator} {frame : FrameId} {s s' : State}

theorem evalEach_cons_value {form : Value} {forms values : List Value} :
    evalEach eval frame (form :: forms) s = .value values s' ↔ ∃ v vs t, eval form frame s = .value v t ∧
      evalEach eval frame forms t = .value vs s' ∧ v :: vs = values := by
  simp only [evalEach, Run.bind_eq_value]
  constructor
  · rintro ⟨v, t, hv, vs, t', hvs, hpure⟩
    cases hpure
    exact ⟨v, vs, t, hv, hvs, rfl⟩
  · rintro ⟨v, vs, t, hv, hvs, rfl⟩
    exact ⟨v, t, hv, vs, s', hvs, rfl⟩

theorem evalEach_append_value {as bs values : List Value} :
    evalEach eval frame (as ++ bs) s = .value values s' ↔ ∃ vs ws t, evalEach eval frame as s = .value vs t ∧
      evalEach eval frame bs t = .value ws s' ∧ vs ++ ws = values := by
  induction as generalizing s values with
  | nil =>
    constructor
    · exact fun h => ⟨[], values, s, rfl, h, rfl⟩
    · rintro ⟨vs, ws, t, hvs, hws, rfl⟩
      cases hvs
      exact hws
  | cons a as ih =>
    simp only [List.cons_append, evalEach_cons_value, ih]
    constructor
    · rintro ⟨v, _, t, hv, ⟨vs, ws, t', hvs, hws, rfl⟩, rfl⟩
      exact ⟨v :: vs, ws, t', ⟨v, vs, t, hv, hvs, rfl⟩, hws, rfl⟩
    · rintro ⟨_, ws, t', ⟨v, vs, t, hv, hvs, rfl⟩, hws, rfl⟩
      exact ⟨v, vs ++ ws, t, hv, ⟨vs, ws, t', hvs, hws, rfl⟩, rfl⟩

theorem length_of_evalEach {forms values : List Value} (h : evalEach eval frame forms s = .value values s') :
    values.length = forms.length := by
  induction forms generalizing s values with
  | nil => cases h; rfl
  | cons form forms ih =>
    obtain ⟨v, vs, t, _, hvs, rfl⟩ := evalEach_cons_value.1 h
    rw [List.length_cons, List.length_cons, ih hvs]

theorem evalEach_pair_bind {α : Type} (eval : Evaluator) (frame : FrameId) (a b : Value) (f : List Value → Run α) :
    (evalEach eval frame [a, b] >>= f) = (do let v ← eval a frame; let w ← eval b frame; f [v, w]) := by
  simp only [evalEach, bind_assoc, pure_bind]

/-- A row fails as the first of its forms does that fails; the forms before it have values, and no
form after it is evaluated. -/
theorem evalEach_eq_fault {forms : List Value} {fault : Fault} :
    evalEach eval frame forms s = .fault fault s' ↔ ∃ before form after values t, forms = before ++ form :: after ∧
      evalEach eval frame before s = .value values t ∧ eval form frame t = .fault fault s' := by
  induction forms generalizing s with
  | nil =>
    constructor
    · intro h
      cases h
    · rintro ⟨before, form, after, _, _, hforms, _, _⟩
      simp at hforms
  | cons form forms ih =>
    simp only [evalEach, Run.bind_eq_fault, ih]
    constructor
    · rintro (hfault | ⟨v, t, hv, ⟨before, later, after, values, u, rfl, hvalues, hfault⟩ | ⟨_, _, _, hpure⟩⟩)
      · exact ⟨[], form, forms, [], s, rfl, rfl, hfault⟩
      · exact ⟨form :: before, later, after, v :: values, u, rfl,
          evalEach_cons_value.2 ⟨v, values, t, hv, hvalues, rfl⟩,
          hfault⟩
      · cases hpure
    · rintro ⟨before, later, after, values, u, hforms, hvalues, hfault⟩
      cases before with
      | nil =>
        cases hforms
        cases hvalues
        exact .inl hfault
      | cons first before =>
        obtain ⟨rfl, rfl⟩ := List.cons.inj hforms
        obtain ⟨v, vs, t, hv, hvs, -⟩ := evalEach_cons_value.1 hvalues
        exact .inr ⟨v, t, hv, .inl ⟨before, later, after, vs, u, rfl, hvs, hfault⟩⟩

/-- The forms of a body are evaluated as a row, up to any of them. -/
theorem evalBody_append (eval : Evaluator) (frame : FrameId) (form : Value) (after : List Value) :
    ∀ before : List Value, evalBody eval frame (before ++ form :: after) =
      (do let _ ← evalEach eval frame before; evalBody eval frame (form :: after))
  | [] => by rw [List.nil_append, evalEach, pure_bind]
  | [first] => by simp only [List.cons_append, List.nil_append, evalBody, evalEach, pure_bind, bind_assoc]
  | first :: next :: before => by
    have hbody : evalBody eval frame (first :: next :: before ++ form :: after) =
        (do let _ ← eval first frame; evalBody eval frame (next :: before ++ form :: after)) := rfl
    rw [hbody, evalBody_append eval frame form after (next :: before)]
    simp only [evalEach, bind_assoc, pure_bind]

/-- A body is a row of forms of which only the last value is kept. -/
theorem evalBody_snoc (eval : Evaluator) (frame : FrameId) (last : Value) (forms : List Value) :
    evalBody eval frame (forms ++ [last]) = (do let _ ← evalEach eval frame forms; eval last frame) :=
  evalBody_append eval frame last [] forms

theorem evalBody_fault {before : List Value} {form : Value} {values : List Value} {t : State} {fault : Fault}
    (hbefore : evalEach eval frame before s = .value values t) (hform : eval form frame t = .fault fault s')
    (after : List Value) : evalBody eval frame (before ++ form :: after) s = .fault fault s' := by
  rw [evalBody_append]
  refine Run.bind_eq_fault.2 (.inr ⟨values, t, hbefore, ?_⟩)
  cases after with
  | nil => exact hform
  | cons => exact Run.bind_eq_fault.2 (.inl hform)

end Rows

/-! ## Forms that call no macro -/

theorem evaluate_climbs (form : Value) (frame : FrameId) : Climbs fun n => evaluate n form frame :=
  fun _ _ hmn => evaluate_below hmn form frame

section Unexpanded

variable {s : State} {frame : FrameId} {name : String}

theorem evaluate_eq_formValue (steps : Nat) (form : Value) (frame : FrameId) :
    evaluate (steps + 1) form frame = formValue steps (evaluate steps) form frame :=
  (evaluate_succ steps form frame).trans (finish_reduce (evaluate steps) steps form frame)

theorem evaluate_symbol {v : Value} (h : s.get? frame name = some v) (steps : Nat) :
    evaluate (steps + 1) (.symbol name) frame s = .value v s := by
  rw [evaluate_eq_formValue]
  simp only [formValue, evalPlain, Run.lookup, h]

/-- A list that calls no macro is a special form or a call. -/
theorem evaluate_of_macroCall? {head info : Value} {parts : List Value}
    (h : macroCall? s frame (.list (head :: parts) info) = none) (steps : Nat) :
    evaluate (steps + 1) (.list (head :: parts) info) frame s =
      (match SpecialForm.ofHead? head with
      | some special =>
        special.value (evaluate steps) (expandAll (callFunction (evaluate steps) (steps + 1)) (steps + 1)) parts frame
      | none => callValue (evaluate steps) (callFunction (evaluate steps) (steps + 1)) head parts frame) s := by
  have hexpand :
      expandAll (callFunction (evaluate steps) (steps + 1)) (steps + 1) (.list (head :: parts) info) frame s =
      .value (.list (head :: parts) info) s := by
    simp only [expandAll, h]
  rw [evaluate_eq_formValue]
  dsimp only [formValue]
  exact Run.bind_of_value hexpand

theorem macroCall?_symbol (h : ∀ v, s.get? frame name = some v → v.isMacro = false) (parts : List Value)
    (info : Value) :
    macroCall? s frame (.list (.symbol name :: parts) info) = none := by
  simp only [macroCall?]
  cases hv : s.get? frame name with
  | none => rfl
  | some v => simp only [h v hv, Bool.false_eq_true, if_false]

/-- A list that is headed by a symbol, but not by the name of a macro, is a special form or a call. -/
theorem evaluate_unexpanded (h : ∀ v, s.get? frame name = some v → v.isMacro = false) (steps : Nat)
    (parts : List Value) (info : Value) :
    evaluate (steps + 1) (.list (.symbol name :: parts) info) frame s =
      (match SpecialForm.ofName? name with
      | some special =>
        special.value (evaluate steps) (expandAll (callFunction (evaluate steps) (steps + 1)) (steps + 1)) parts frame
      | none => callValue (evaluate steps) (callFunction (evaluate steps) (steps + 1)) (.symbol name) parts frame) s :=
  evaluate_of_macroCall? (macroCall?_symbol h parts info) steps

/-- A body in order is a row of forms before its last one. -/
theorem evaluate_inOrder (h : ∀ v, s.get? frame "do" = some v → v.isMacro = false) (steps : Nat)
    (forms : List Value) (last : Value) :
    evaluate (steps + 1) (.ofList (.symbol "do" :: (forms ++ [last]))) frame s =
      (do let _ ← evalEach (evaluate steps) frame forms; evaluate steps last frame : Run Value) s := by
  have hname : SpecialForm.ofName? "do" = some .inOrder := SpecialForm.ofName?_name .inOrder
  have hparts : ∃ first rest, forms ++ [last] = first :: rest := by
    cases forms with
    | nil => exact ⟨last, [], rfl⟩
    | cons form forms => exact ⟨form, forms ++ [last], rfl⟩
  have hbody : evalBody (evaluate steps) frame (forms ++ [last]) =
      (do let _ ← evalEach (evaluate steps) frame forms; evaluate steps last frame : Run Value) :=
    evalBody_snoc (evaluate steps) frame last forms
  obtain ⟨first, rest, hfirst⟩ := hparts
  rw [Value.ofList, evaluate_unexpanded h, hname, ← hbody, hfirst]
  rfl

theorem isMacro_of_get? {function : Value} (h : s.get? frame name = some function) (hplain : function.isMacro = false) :
    ∀ v, s.get? frame name = some v → v.isMacro = false := by
  intro v hv
  obtain rfl : function = v := Option.some.inj (h.symm.trans hv)
  exact hplain

theorem callValue_apply {eval : Evaluator} {call : Caller} {head function : Value}
    (h : eval head frame s = .value function s) (args : List Value) :
    callValue eval call head args frame s = (do
      let values ← evalEach eval frame args
      call function values frame : Run Value) s :=
  Run.bind_of_value h

/-- A call by name: the arguments are evaluated from the left, then the function is called. -/
theorem evaluate_call {function : Value} (hname : SpecialForm.ofName? name = none)
    (h : s.get? frame name = some function) (hplain : function.isMacro = false) (steps : Nat) (args : List Value)
    (info : Value) :
    evaluate (steps + 2) (.list (.symbol name :: args) info) frame s = (do
      let values ← evalEach (evaluate (steps + 1)) frame args
      callFunction (evaluate (steps + 1)) (steps + 2) function values frame : Run Value) s := by
  rw [evaluate_unexpanded (isMacro_of_get? h hplain), hname]
  exact callValue_apply (evaluate_symbol h steps) args

/-- A call with one argument that has a value. -/
theorem evaluate_call_one {function v : Value} {t : State} (hname : SpecialForm.ofName? name = none)
    (h : s.get? frame name = some function) (hplain : function.isMacro = false) {steps : Nat} {arg : Value}
    (harg : evaluate (steps + 1) arg frame s = .value v t) (info : Value) :
    evaluate (steps + 2) (.list [.symbol name, arg] info) frame s =
      callFunction (evaluate (steps + 1)) (steps + 2) function [v] frame t := by
  have hargs : evalEach (evaluate (steps + 1)) frame [arg] s = .value [v] t :=
    evalEach_cons_value.2 ⟨v, [], t, harg, rfl, rfl⟩
  rw [evaluate_call hname h hplain]
  exact Run.bind_of_value hargs

theorem evaluate_call_one_fault {function : Value} {fault : Fault} {t : State}
    (hname : SpecialForm.ofName? name = none) (h : s.get? frame name = some function)
    (hplain : function.isMacro = false) {steps : Nat} {arg : Value}
    (harg : evaluate (steps + 1) arg frame s = .fault fault t) (info : Value) :
    evaluate (steps + 2) (.list [.symbol name, arg] info) frame s = .fault fault t := by
  have hargs : evalEach (evaluate (steps + 1)) frame [arg] s = .fault fault t :=
    evalEach_eq_fault.2 ⟨[], arg, [], [], s, rfl, rfl, harg⟩
  rw [evaluate_call hname h hplain]
  exact Run.bind_eq_fault.2 (.inl hargs)

end Unexpanded

/-! ## Texts -/

/-- What the primitive `read-string` makes of a text. -/
def readString (text : String) : Run Value :=
  match Source.read text with
  | .ok form? => pure (form?.getD .nil)
  | .error cause => Run.fail (.reading cause)

/-- Reads the first form of a text and evaluates it. -/
def evaluateText (steps : Nat) (text : String) (frame : FrameId) : Run Value := do
  evaluate steps (← readString text) frame

theorem evaluateText_of_read {text : String} {form : Value} (h : Source.read text = .ok (some form)) (steps : Nat)
    (frame : FrameId) : evaluateText steps text frame = evaluate steps form frame := by
  rw [evaluateText, readString, h]
  rfl

theorem evaluateText_of_error {text : String} {cause : ReadFault} (h : Source.read text = .error cause) (steps : Nat)
    (frame : FrameId) : evaluateText steps text frame = Run.fail (.reading cause) := by
  rw [evaluateText, readString, h]
  rfl

end SmallLisp
