/-
Malformed special forms. The count and the shape of the parts of a special form are checked before any of them is
evaluated: whatever evaluates the parts, a malformed special form is a fault for the count or the kind of its parts,
in the state in which it was begun. Of the other special forms none is refused like this
(`SpecialForm.reduce_fails_iff`). Main statement: `evaluate_malformed`.
-/
import SmallLisp.Proofs.Evaluation.Rules
import SmallLisp.Proofs.Run.Parameters
import SmallLisp.Proofs.Template.Malformed
import SmallLisp.Session

namespace SmallLisp

/-! ## Malformed parts -/

namespace SpecialForm

/-- The least number of parts. -/
def atLeast : SpecialForm → Nat
  | .define | .defineMacro | .letIn | .conditional | .guarded => 2
  | .inOrder | .function | .quote | .quasiquote | .expand => 1

/-- The greatest number of parts, if there is one. -/
def atMost : SpecialForm → Option Nat
  | .define | .defineMacro | .letIn | .guarded => some 2
  | .conditional => some 3
  | .quote | .quasiquote | .expand => some 1
  | .inOrder | .function => none

/-- What is wrong with the parts of a special form, as they are written. -/
inductive Malformed : SpecialForm → List Value → Prop where
  | tooFew {special : SpecialForm} {parts : List Value} : parts.length < special.atLeast → Malformed special parts
  | tooMany {special : SpecialForm} {parts : List Value} {most : Nat} : special.atMost = some most →
    most < parts.length → Malformed special parts
  /-- Something is to be defined that is no symbol. -/
  | name {special : SpecialForm} {name form : Value} : special = .define ∨ special = .defineMacro →
    (∀ text, name ≠ .symbol text) → Malformed special [name, form]
  | bindings {bindings body : Value} : bindings.items? = none → Malformed .letIn [bindings, body]
  /-- A name without a form to be bound to. -/
  | oddBindings {bindings body : Value} {row : List Value} : bindings.items? = some row → row.length % 2 = 1 →
    Malformed .letIn [bindings, body]
  | formals {formals : Value} {body : List Value} : formals.items? = none → Malformed .function (formals :: body)
  /-- Forms that are those of no parameter list. -/
  | parameters {formals : Value} {body row : List Value} : formals.items? = some row →
    (∀ params : Parameters, row ≠ params.forms) → Malformed .function (formals :: body)
  | handler {body clause : Value} :
    (∀ name handler info, clause ≠ .list [.symbol "catch*", .symbol name, handler] info) →
    Malformed .guarded [body, clause]
  | template {t : Value} : Template.Malformed t → Malformed .quasiquote [t]

/-- The part that a fault shows: the first one among the parameters of a function that is no symbol. -/
def shownPart? : SpecialForm → List Value → Option Value
  | .function, formals :: _ => (formals.items?.getD []).find? fun form => !FormKind.symbol.admits form
  | _, _ => none

end SpecialForm

/-- A fault for the count or for the kind of forms. -/
def Fault.IsOfShape (fault : Fault) : Prop := (∃ cause, fault = .arity cause) ∨ ∃ cause, fault = .kind cause

namespace SpecialForm

/-! ## Checks -/

section Checks

variable (name : String) {form : Value}

theorem requireSymbol_fails (h : ∀ text, form ≠ .symbol text) (index : Nat) :
    Run.requireSymbol name index form = Run.failKind (.argument (index + 1) name [.symbol]) := by
  cases form with
  | symbol text => exact absurd rfl (h text)
  | _ => rfl

theorem requireItems_fails (h : form.items? = none) (index : Nat) :
    Run.requireItems name index form = Run.failKind (.argument (index + 1) name [.list, .vector]) := by
  rw [Run.requireItems, h]

theorem requireItems_of_items? {items : List Value} (h : form.items? = some items) (index : Nat) :
    Run.requireItems name index form = pure items := by
  rw [Run.requireItems, h]
  rfl

/-- Forms that are those of no parameter list are refused; the first one that is no symbol is shown. -/
theorem ofForms_fails {row : List Value} (h : ∀ params : Parameters, row ≠ params.forms) {s : State}
    (hshown : ∀ form, row.find? (fun form => !FormKind.symbol.admits form) = some form →
      ∃ text, form.inspect s.cells = .ok text) :
    ∃ cause, Parameters.ofForms row s = .fault (.kind cause) s := by
  rcases Parameters.ofForms_refuses h with ⟨names, -, hrun⟩ | ⟨names, form, after, rfl, hform, hrun⟩
  · rw [hrun]
    exact ⟨_, rfl⟩
  · have hadmits : FormKind.symbol.admits form = false := by
      cases form with
      | symbol name => exact absurd rfl (hform name)
      | _ => rfl
    have hnames : (names.map Value.symbol).find? (fun form => !FormKind.symbol.admits form) = none := by
      rw [List.find?_eq_none, List.forall_mem_map]
      exact fun name _ => Bool.false_ne_true
    obtain ⟨text, htext⟩ := hshown form (by
      rw [List.find?_append, hnames, Option.none_or, List.find?_cons_of_pos (by rw [hadmits]; rfl)])
    rw [hrun]
    exact ⟨_, Run.failInspecting_of_text htext _⟩

/-- What does not end a guarded form as it has to be is refused. -/
theorem handlerParts_fails {clause : Value}
    (h : ∀ name handler info, clause ≠ .list [.symbol "catch*", .symbol name, handler] info) :
    ∃ fault : Fault, fault.IsOfShape ∧ handlerParts clause = Run.fail fault := by
  unfold handlerParts
  cases hargs : clause.argumentsOf? "catch*" with
  | none => exact ⟨.kind .handlerExpected, .inr ⟨_, rfl⟩, rfl⟩
  | some args =>
    match args with
    | [] | [_] => exact ⟨.arity (.tooFew "catch*"), .inl ⟨_, rfl⟩, rfl⟩
    | _ :: _ :: _ :: _ => exact ⟨.arity (.tooMany "catch*"), .inl ⟨_, rfl⟩, rfl⟩
    | [name, handler] =>
      obtain ⟨info, rfl⟩ := Value.argumentsOf?_eq_some.1 hargs
      have hname : ∀ text, name ≠ .symbol text := by
        rintro text rfl
        exact h text handler info rfl
      refine ⟨.kind (.argument 1 "catch*" [.symbol]), .inr ⟨_, rfl⟩, ?_⟩
      show (Run.requireSymbol "catch*" 0 name >>= fun name => pure (name, handler)) = _
      rw [requireSymbol_fails "catch*" hname]
      rfl

end Checks

/-! ## Reductions of malformed forms -/

section Reductions

variable {special : SpecialForm} {parts : List Value} (eval expand : Evaluator) (frame : FrameId)

theorem exists_cons_of_lt_length {n : Nat} (h : n < parts.length) :
    ∃ first rest, parts = first :: rest ∧ n ≤ rest.length := by
  obtain ⟨first, rest, rfl⟩ := List.exists_cons_of_length_pos (Nat.zero_lt_of_lt h)
  exact ⟨first, rest, rfl, Nat.le_of_lt_succ h⟩

theorem reduce_of_tooFew (h : parts.length < special.atLeast) :
    special.reduce eval expand parts frame = Run.fail (.arity (.tooFew special.name)) := by
  cases special with
  | define | defineMacro | letIn | conditional | guarded =>
    rcases parts with _ | ⟨first, _ | ⟨second, rest⟩⟩
    · rfl
    · rfl
    · exact absurd h (Nat.not_lt.2 (Nat.le_add_left 2 rest.length))
  | inOrder | function | quote | quasiquote | expand =>
    obtain rfl := List.eq_nil_of_length_eq_zero (Nat.lt_one_iff.1 h)
    rfl

theorem checkCount_tooMany {name : String} {count lower most : Nat} (hlower : lower ≤ most) (h : most < count) :
    checkCount name count lower (some (most : Int)) = .error (.arity (.tooMany name)) := by
  rw [checkCount, if_neg (by omega)]
  exact if_pos (by omega)

theorem reduce_of_tooMany {most : Nat} (hmost : special.atMost = some most) (h : most < parts.length) :
    special.reduce eval expand parts frame = Run.fail (.arity (.tooMany special.name)) := by
  cases special with
  | define | defineMacro | letIn | guarded =>
    cases hmost
    obtain ⟨first, later, rfl, hlater⟩ := exists_cons_of_lt_length h
    obtain ⟨second, rest, rfl, hrest⟩ := exists_cons_of_lt_length hlater
    obtain ⟨third, more, rfl, -⟩ := exists_cons_of_lt_length hrest
    rfl
  | conditional =>
    cases hmost
    have hcount : checkCount SpecialForm.conditional.name parts.length 2 (some 3) =
        .error (.arity (.tooMany SpecialForm.conditional.name)) := checkCount_tooMany (by decide) h
    obtain ⟨test, branches, rfl, hbranches⟩ := exists_cons_of_lt_length h
    obtain ⟨yes, others, rfl, hothers⟩ := exists_cons_of_lt_length hbranches
    obtain ⟨no, rest, rfl, hrest⟩ := exists_cons_of_lt_length hothers
    obtain ⟨extra, more, rfl, -⟩ := exists_cons_of_lt_length hrest
    simp only [SpecialForm.reduce, hcount]
    rfl
  | quote | quasiquote | expand =>
    cases hmost
    obtain ⟨first, rest, rfl, hrest⟩ := exists_cons_of_lt_length h
    obtain ⟨second, more, rfl, -⟩ := exists_cons_of_lt_length hrest
    rfl
  | inOrder | function => cases hmost

/-- The reduction of a malformed form is a fault, whatever evaluates and expands its parts. -/
theorem Malformed.reduce_fails {s : State} (h : special.Malformed parts)
    (hshown : ∀ form, special.shownPart? parts = some form → ∃ text, form.inspect s.cells = .ok text) :
    ∃ fault : Fault, fault.IsOfShape ∧
      ∀ eval expand frame, special.reduce eval expand parts frame s = .fault fault s := by
  cases h with
  | tooFew hcount =>
    exact ⟨.arity _, .inl ⟨_, rfl⟩, fun eval expand frame => congrFun (reduce_of_tooFew eval expand frame hcount) s⟩
  | tooMany hmost hcount =>
    exact ⟨.arity _, .inl ⟨_, rfl⟩, fun eval expand frame =>
      congrFun (reduce_of_tooMany eval expand frame hmost hcount) s⟩
  | @name _ name form hspecial hname =>
    have hsymbol := fun special => congrFun (requireSymbol_fails special hname 0) s
    rcases hspecial with rfl | rfl
    · exact ⟨_, .inr ⟨_, rfl⟩, fun _ _ _ => Run.bind_eq_fault.2 (.inr
        ⟨(name, form), s, rfl, Run.bind_eq_fault.2 (.inl (hsymbol "def!"))⟩)⟩
    · exact ⟨_, .inr ⟨_, rfl⟩, fun _ _ _ => Run.bind_eq_fault.2 (.inr
        ⟨(name, form), s, rfl, Run.bind_eq_fault.2 (.inl (hsymbol "defmacro!"))⟩)⟩
  | @bindings bindings body hbindings =>
    have hitems := congrFun (requireItems_fails "let*" hbindings 0) s
    exact ⟨_, .inr ⟨_, rfl⟩, fun _ _ _ => Run.bind_eq_fault.2 (.inr
      ⟨(bindings, body), s, rfl, Run.bind_eq_fault.2 (.inl hitems)⟩)⟩
  | @oddBindings bindings body row hrow hodd =>
    have hitems := congrFun (requireItems_of_items? "let*" hrow 0) s
    refine ⟨.kind .oddBindings, .inr ⟨_, rfl⟩, fun _ _ _ => Run.bind_eq_fault.2 (.inr
      ⟨(bindings, body), s, rfl, Run.bind_eq_fault.2 (.inr ⟨row, s, hitems, ?_⟩)⟩)⟩
    rw [if_pos hodd]
    rfl
  | @formals formals body hformals =>
    have hitems := congrFun (requireItems_fails "fn*" hformals 0) s
    exact ⟨_, .inr ⟨_, rfl⟩, fun _ _ _ => Run.bind_eq_fault.2 (.inr
      ⟨(formals, body), s, rfl, Run.bind_eq_fault.2 (.inl hitems)⟩)⟩
  | @parameters formals body row hrow hparams =>
    have hitems := congrFun (requireItems_of_items? "fn*" hrow 0) s
    have hpart : shownPart? .function (formals :: body) = row.find? fun form => !FormKind.symbol.admits form := by
      rw [shownPart?, hrow, Option.getD_some]
    obtain ⟨cause, hfault⟩ := ofForms_fails hparams fun form hform => hshown form (hpart.trans hform)
    exact ⟨_, .inr ⟨_, rfl⟩, fun _ _ _ => Run.bind_eq_fault.2 (.inr ⟨(formals, body), s, rfl,
      Run.bind_eq_fault.2 (.inr ⟨row, s, hitems, Run.bind_eq_fault.2 (.inl hfault)⟩)⟩)⟩
  | @handler body clause hclause =>
    obtain ⟨fault, hshape, hparts⟩ := handlerParts_fails hclause
    exact ⟨fault, hshape, fun _ _ _ => Run.bind_eq_fault.2 (.inr
      ⟨(body, clause), s, rfl, Run.bind_eq_fault.2 (.inl (congrFun hparts s))⟩)⟩
  | @template t ht =>
    obtain ⟨cause, hcause⟩ := (Template.code_fails_iff t).2 ht
    refine ⟨.arity cause, .inl ⟨_, rfl⟩, fun _ _ _ => Run.bind_eq_fault.2 (.inr ⟨t, s, rfl, ?_⟩)⟩
    rw [hcause]
    rfl

end Reductions

/-! ## Nothing else is refused -/

/-- Evaluates nothing. -/
def idle : Evaluator := fun _ _ => Run.halt .steps

section Converse

variable {special : SpecialForm} {parts : List Value} {frame : FrameId} {s : State} {fault : Fault}

theorem addFrame_ne (s : State) (frame : Frame) : s.addFrame frame ≠ s := by
  intro h
  have hsize : (s.addFrame frame).frames.size = s.frames.size + 1 := Array.size_push _
  rw [h] at hsize
  exact Nat.succ_ne_self _ hsize.symm

/-- With nothing evaluated, bindings fail for a name only, and that changes nothing. -/
theorem bindInTurn_idle {t : State} {row : List Value} (h : bindInTurn idle frame row s = .fault fault t) : t = s := by
  rcases row with _ | ⟨name, _ | ⟨form, row⟩⟩
  · cases h
  · cases h
  · by_cases hname : ∃ text, name = .symbol text
    · obtain ⟨text, rfl⟩ := hname
      cases h
    · have hrow : bindInTurn idle frame (name :: form :: row) = Run.failInspecting name .bindingNotSymbol := by
        cases name with
        | symbol text => exact absurd ⟨text, rfl⟩ hname
        | _ => rfl
      obtain ⟨cause, hcause⟩ := Run.Refuses.failInspecting (α := Unit) name .bindingNotSymbol s
      rw [hrow, hcause] at h
      cases h
      rfl

theorem letIn_malformed_of_fault {bindings body : Value}
    (h : letIn.reduce idle idle [bindings, body] frame s = .fault fault s) : Malformed .letIn [bindings, body] := by
  have hparts : Run.exactlyTwo letIn.name [bindings, body] = pure (bindings, body) := rfl
  cases hrow : bindings.items? with
  | none => exact .bindings hrow
  | some row =>
    by_cases hodd : row.length % 2 = 1
    · exact .oddBindings hrow hodd
    · simp only [SpecialForm.reduce, hparts, requireItems_of_items? "let*" hrow 0, pure_bind, if_neg hodd] at h
      have hbind : (do
          bindInTurn idle s.frames.size row
          return .next body s.frames.size : Run Step) (s.addFrame ⟨some frame, []⟩) = .fault fault s := h
      -- the frame for the bindings is there when one of them fails
      rcases Run.bind_eq_fault.1 hbind with hfault | ⟨_, _, _, hpure⟩
      · exact absurd (bindInTurn_idle hfault).symm (addFrame_ne s _)
      · cases hpure

theorem function_malformed_of_fault {formals : Value} {body : List Value}
    (h : SpecialForm.function.reduce idle idle (formals :: body) frame s = .fault fault s) :
    Malformed .function (formals :: body) := by
  have hparts : Run.oneOrMore SpecialForm.function.name (formals :: body) = pure (formals, body) := rfl
  cases hrow : formals.items? with
  | none => exact .formals hrow
  | some row =>
    by_cases hparams : ∃ params : Parameters, row = params.forms
    · obtain ⟨params, hforms⟩ := hparams
      have hvalue : Parameters.ofForms row s = .value params s := Parameters.ofForms_eq_value_iff.2 ⟨hforms, rfl⟩
      simp only [SpecialForm.reduce, hparts, requireItems_of_items? "fn*" hrow 0, pure_bind] at h
      rw [Run.bind_of_value hvalue] at h
      cases h
    · exact .parameters hrow fun params hforms => hparams ⟨params, hforms⟩

theorem malformed_of_fault (h : special.reduce idle idle parts frame s = .fault fault s) : special.Malformed parts := by
  by_cases hfew : parts.length < special.atLeast
  · exact .tooFew hfew
  by_cases hmany : ∃ most, special.atMost = some most ∧ most < parts.length
  · obtain ⟨most, hmost, hlt⟩ := hmany
    exact .tooMany hmost hlt
  -- the count is as it has to be
  have hleast : special.atLeast ≤ parts.length := Nat.le_of_not_lt hfew
  have hmost : ∀ most, special.atMost = some most → parts.length ≤ most := fun most hmost =>
    Nat.le_of_not_lt fun hlt => hmany ⟨most, hmost, hlt⟩
  cases special with
  | define | defineMacro =>
    obtain ⟨name, form, rfl⟩ := List.length_eq_two.1 (Nat.le_antisymm (hmost 2 rfl) hleast)
    by_cases hname : ∃ text, name = .symbol text
    · obtain ⟨text, rfl⟩ := hname
      cases h
    · exact .name (by simp) fun text heq => hname ⟨text, heq⟩
  | letIn =>
    obtain ⟨bindings, body, rfl⟩ := List.length_eq_two.1 (Nat.le_antisymm (hmost 2 rfl) hleast)
    exact letIn_malformed_of_fault h
  | inOrder =>
    obtain ⟨first, rest, rfl⟩ := List.exists_cons_of_length_pos hleast
    cases rest <;> cases h
  | conditional =>
    obtain ⟨test, branches, rfl, hbranches⟩ := exists_cons_of_lt_length hleast
    obtain ⟨yes, no, rfl, -⟩ := exists_cons_of_lt_length hbranches
    have hno : no.length ≤ 1 := Nat.le_of_succ_le_succ (Nat.le_of_succ_le_succ (hmost 3 rfl))
    rcases no with _ | ⟨no, _ | ⟨extra, rest⟩⟩
    · cases h
    · cases h
    · exact absurd hno (Nat.not_le.2 (Nat.le_add_left 2 rest.length))
  | function =>
    obtain ⟨formals, body, rfl⟩ := List.exists_cons_of_length_pos hleast
    exact function_malformed_of_fault h
  | quote | expand =>
    obtain ⟨form, rfl⟩ := List.length_eq_one_iff.1 (Nat.le_antisymm (hmost 1 rfl) hleast)
    cases h
  | quasiquote =>
    obtain ⟨t, rfl⟩ := List.length_eq_one_iff.1 (Nat.le_antisymm (hmost 1 rfl) hleast)
    have hparts : Run.exactlyOne SpecialForm.quasiquote.name [t] = pure t := rfl
    cases hcode : Template.code t with
    | error cause => exact .template ((Template.code_fails_iff t).1 ⟨cause, hcode⟩)
    | ok code =>
      simp only [SpecialForm.reduce, hparts, pure_bind, hcode] at h
      cases h
  | guarded =>
    obtain ⟨body, clause, rfl⟩ := List.length_eq_two.1 (Nat.le_antisymm (hmost 2 rfl) hleast)
    by_cases hclause : ∃ name handler info, clause = .list [.symbol "catch*", .symbol name, handler] info
    · obtain ⟨name, handler, info, rfl⟩ := hclause
      cases h
    · exact .handler fun name handler info heq => hclause ⟨name, handler, info, heq⟩

/-- A special form is a fault for the count or the kind of its parts, whatever evaluates and expands them, exactly if
it is malformed. -/
theorem reduce_fails_iff
    (hshown : ∀ form, special.shownPart? parts = some form → ∃ text, form.inspect s.cells = .ok text) :
    (∃ fault : Fault, fault.IsOfShape ∧
      ∀ eval expand frame, special.reduce eval expand parts frame s = .fault fault s) ↔ special.Malformed parts :=
  ⟨fun ⟨_, _, hfails⟩ => malformed_of_fault (hfails idle idle rootFrame), fun h => h.reduce_fails hshown⟩

end Converse

end SpecialForm

/-! ## Main statement -/

/-- A special form that no macro hides is reduced as such. -/
theorem reduce_special {special : SpecialForm} {s : State} {frame : FrameId}
    (h : ∀ v, s.get? frame special.name = some v → v.isMacro = false) (steps : Nat) (eval : Evaluator)
    (parts : List Value) (info : Value) :
    reduce steps eval (.list (.symbol special.name :: parts) info) frame s =
      special.reduce eval (expandAll (callFunction eval (steps + 1)) (steps + 1)) parts frame s := by
  have hexpand : expandAll (callFunction eval (steps + 1)) (steps + 1) (.list (.symbol special.name :: parts) info)
      frame s = .value (.list (.symbol special.name :: parts) info) s := by
    simp only [expandAll, macroCall?_symbol h]
  refine (Run.bind_of_value hexpand).trans ?_
  simp only [SpecialForm.ofHead?, SpecialForm.ofName?_name]
  rfl

/-- A malformed special form is a fault for the count or the kind of its parts. The state is left as it is, and no part
has been evaluated: the fault is the same one whatever evaluates the parts, and it arises in the first step. The
parameter that the fault may show is taken to have a text. -/
theorem evaluate_malformed {special : SpecialForm} {parts : List Value} {s : State} {frame : FrameId}
    (h : special.Malformed parts) (hname : ∀ v, s.get? frame special.name = some v → v.isMacro = false)
    (hshown : ∀ form, special.shownPart? parts = some form → ∃ text, form.inspect s.cells = .ok text) (info : Value) :
    ∃ fault : Fault, fault.IsOfShape ∧
      (∀ steps eval, reduce steps eval (.list (.symbol special.name :: parts) info) frame s = .fault fault s) ∧
      ∀ steps, evaluate (steps + 1) (.list (.symbol special.name :: parts) info) frame s = .fault fault s := by
  obtain ⟨fault, hshape, hfails⟩ := (SpecialForm.reduce_fails_iff hshown).2 h
  have hreduce : ∀ steps eval,
      reduce steps eval (.list (.symbol special.name :: parts) info) frame s = .fault fault s := fun steps eval =>
    (reduce_special hname steps eval parts info).trans (hfails _ _ _)
  refine ⟨fault, hshape, hreduce, fun steps => ?_⟩
  rw [evaluate_succ]
  exact Run.bind_eq_fault.2 (.inl (hreduce steps (evaluate steps)))

/-- A parameter that is no symbol, and a template with an empty hole behind the first item of a vector in it. -/
theorem evaluate_malformed_nested :
    let s := State.initial [] (.tree []) "" true 0
    let function : Value := .ofList [.symbol "fn*", .ofVector [.symbol "a", .nil], .symbol "a"]
    let template : Value := .ofList [.symbol "quasiquote",
      .ofList [.symbol "a", .ofVector [.symbol "b", .ofList [.symbol "splice-unquote"]]]]
    (∃ cause, ∀ steps, evaluate (steps + 1) function rootFrame s = .fault (.kind cause) s) ∧
    ∃ cause, ∀ steps, evaluate (steps + 1) template rootFrame s = .fault (.arity cause) s := by
  intro s function template
  have hparameters : SpecialForm.function.Malformed [.ofVector [.symbol "a", .nil], .symbol "a"] := by
    refine .parameters rfl fun params hforms => ?_
    have hnil : Value.nil ∈ params.forms := hforms ▸ by simp
    simp [Parameters.forms] at hnil
  have htemplate : SpecialForm.quasiquote.Malformed
      [.ofList [.symbol "a", .ofVector [.symbol "b", .ofList [.symbol "splice-unquote"]]]] :=
    .template (.rest rfl rfl (.first rfl rfl rfl (.rest rfl rfl (.spliced rfl rfl rfl (by decide)))))
  have hplain : ∀ special : SpecialForm, ∀ v, s.get? rootFrame special.name = some v → v.isMacro = false := by
    intro special v hv
    cases special <;> cases hv
  have hnil : ∀ form, SpecialForm.shownPart? .function [.ofVector [.symbol "a", .nil], .symbol "a"] = some form →
      ∃ text, form.inspect s.cells = .ok text := by
    rintro form ⟨⟩
    exact ⟨"nil", rfl⟩
  have hnone : ∀ form, SpecialForm.shownPart? .quasiquote
      [.ofList [.symbol "a", .ofVector [.symbol "b", .ofList [.symbol "splice-unquote"]]]] = some form →
      ∃ text, form.inspect s.cells = .ok text := by
    intro form hform
    cases hform
  obtain ⟨_, -, hreduce, hfunction⟩ := evaluate_malformed hparameters (hplain .function) hnil .nil
  obtain ⟨_, -, hreduce', htemplate⟩ := evaluate_malformed htemplate (hplain .quasiquote) hnone .nil
  -- which fault it is shows even if nothing can be evaluated
  have hkind := hreduce 0 fun _ _ => Run.halt .steps
  have harity := hreduce' 0 fun _ _ => Run.halt .steps
  cases hkind
  cases harity
  exact ⟨⟨_, hfunction⟩, ⟨_, htemplate⟩⟩

end SmallLisp
