/-
Entering a function. The parameters that a list of forms writes are bound to arguments in a new frame inside of
the frame of the function, unless there are too few of these or too many; nothing else can go wrong. Main
statement: `enter_binds`.
-/
import SmallLisp.Proofs.Evaluation.Rules
import SmallLisp.Proofs.Run.Parameters
import SmallLisp.Proofs.Run.Scopes
import SmallLisp.Session

namespace SmallLisp

/-! ## Bindings one after the other -/

namespace Bindings

variable {pairs before after : Bindings} {name : String}

theorem bindAll_append (bindings : Bindings) :
    bindings.bindAll (before ++ after) = (bindings.bindAll before).bindAll after := List.foldl_append

theorem isSome_find?_bindAll : ((bindAll [] pairs).find? name).isSome ↔ name ∈ pairs.map (·.1) := by
  rw [find?_bindAll, find?, Option.or_none, Option.isSome_map, List.find?_isSome]
  simp

/-- Of the bindings of a name, the last one counts. -/
theorem find?_bindAll_last (h : ∀ pair ∈ after, pair.1 ≠ name) (bindings : Bindings) (value : Value) :
    (bindings.bindAll (before ++ (name, value) :: after)).find? name = some value := by
  have hafter : after.reverse.find? (fun pair => pair.1 == name) = none := by
    rw [List.find?_eq_none]
    simpa using h
  rw [find?_bindAll, List.reverse_append, List.reverse_cons, List.find?_append, List.find?_append, hafter]
  simp

end Bindings

/-! ## Parameters and arguments -/

/-- The parameter for the arguments that are left, as it is written. -/
def Parameters.restForms (params : Parameters) : List Value :=
  match params.rest with
  | none => []
  | some rest => [.symbol restMark, .symbol rest]

theorem Parameters.forms_eq (params : Parameters) :
    params.forms = params.required.map .symbol ++ params.restForms := by
  rw [forms, names, restForms, List.map_append]
  cases params.rest <;> rfl

section Binding

theorem mapM_parameterLabel (names : List String) : (names.map Value.symbol).mapM parameterLabel = pure names := by
  induction names with
  | nil => rfl
  | cons name names ih =>
    rw [List.map_cons, List.mapM_cons, ih]
    rfl

theorem mapM_inspected {s : State} {vs : List Value} (h : ∀ v ∈ vs, ∃ text, v.inspect s.cells = .ok text) :
    ∃ texts, vs.mapM Run.inspected s = .value texts s ∧
      List.Forall₂ (fun v text => v.inspect s.cells = .ok text) vs texts := by
  induction vs with
  | nil => exact ⟨[], rfl, .nil⟩
  | cons v vs ih =>
    obtain ⟨⟨text, hv⟩, hvs⟩ := List.forall_mem_cons.1 h
    obtain ⟨texts, htexts, hall⟩ := ih hvs
    refine ⟨text :: texts, ?_, .cons hv hall⟩
    simp only [List.mapM_cons, Run.bind_apply, Run.inspected_of_text hv, htexts]
    rfl

/-- Without a parameter for them, arguments that are left are a fault that shows them. -/
theorem bindForms_extra {s : State} {args : List Value} (hargs : args ≠ [])
    (hshown : ∀ arg ∈ args, ∃ text, arg.inspect s.cells = .ok text) (bindings : Bindings) :
    ∃ texts, List.Forall₂ (fun arg text => arg.inspect s.cells = .ok text) args texts ∧
      bindForms bindings [] args s = .fault (.arity (.extra texts)) s := by
  obtain ⟨texts, htexts, hall⟩ := mapM_inspected hshown
  refine ⟨texts, hall, ?_⟩
  cases args with
  | nil => exact absurd rfl hargs
  | cons arg args =>
    rw [bindForms.eq_def]
    dsimp only
    rw [Run.bind_apply, htexts]
    rfl

variable {required : List String} (hmark : restMark ∉ required)
include hmark

theorem isRestMark_of_mem {name : String} (h : name ∈ required) : isRestMark (.symbol name) = false :=
  beq_false_of_ne fun heq => hmark (heq ▸ h)

/-- As long as there are arguments, names are bound to them in turn. -/
theorem bindForms_required (tail : List Value) {args : List Value} (hlength : required.length ≤ args.length)
    (bindings : Bindings) : bindForms bindings (required.map .symbol ++ tail) args =
      bindForms (bindings.bindAll (required.zip args)) tail (args.drop required.length) := by
  induction required generalizing args bindings with
  | nil => rfl
  | cons name required ih =>
    obtain ⟨arg, args, rfl⟩ := List.exists_cons_of_length_pos (Nat.zero_lt_of_lt hlength)
    have hname := isRestMark_of_mem hmark List.mem_cons_self
    rw [List.map_cons, List.cons_append, bindForms_value bindings (by simp [hname])]
    exact ih (List.not_mem_of_not_mem_cons hmark) (Nat.le_of_succ_le_succ hlength) (bindings.bind name arg)

/-- A name without an argument is a fault that lists it, and the names after it up to the rest mark. -/
theorem bindForms_missing {tail : List Value} (htail : ∀ form ∈ tail.head?, isRestMark form = true)
    (hrequired : required ≠ []) (bindings : Bindings) :
    bindForms bindings (required.map .symbol ++ tail) [] = Run.fail (.arity (.missing required)) := by
  have hnames : (required.map Value.symbol ++ tail).takeWhile (!isRestMark ·) = required.map .symbol := by
    rw [List.takeWhile_append_of_pos (by simpa using fun name hname => isRestMark_of_mem hmark hname)]
    cases tail with
    | nil => simp
    | cons form tail => simp [htail form rfl]
  cases required with
  | nil => exact absurd rfl hrequired
  | cons name required =>
    have hname : ¬isRestMark (.symbol name) = true := by simp [isRestMark_of_mem hmark List.mem_cons_self]
    rw [List.map_cons, List.cons_append] at hnames ⊢
    rw [bindForms.eq_def]
    dsimp only
    rw [if_neg hname, hnames, ← List.map_cons, mapM_parameterLabel]
    rfl

end Binding

/-! ## Main statement -/

/-- Whether bindings are those of parameters to arguments. Exactly the listed names are bound. A name is bound by
its last place in the list: to the argument in that place, or to the list of the arguments that are left. -/
structure Parameters.Assigns (params : Parameters) (args : List Value) (bindings : Bindings) : Prop where
  bound_iff : ∀ name, (bindings.find? name).isSome ↔ name ∈ params.required ∨ params.rest = some name
  required : ∀ (i : Nat) (name : String), params.required[i]? = some name → name ∉ params.required.drop (i + 1) →
    params.rest ≠ some name → bindings.find? name = args[i]?
  rest : ∀ name, params.rest = some name → bindings.find? name = some (.ofList (args.drop params.required.length))

/-- What entering a function comes to in a state, by the number of its arguments. -/
structure Parameters.Enters (params : Parameters) (outer : FrameId) (args : List Value) (s : State) : Prop where
  fault_iff : (∃ fault t, enter params outer args s = .fault fault t) ↔
    args.length < params.required.length ∨ params.rest = none ∧ params.required.length < args.length
  /-- Too few arguments: the fault counts and lists the names for which there is none. -/
  missing : args.length < params.required.length → ∃ fault, enter params outer args s = .fault fault s ∧
    fault = .arity (.missing (params.required.drop args.length)) ∧
    fault.message = "Too few arguments; missing " ++ toString (params.required.length - args.length) ++
      " parameter(s): " ++ bracketed ((params.required.drop args.length).map Text.quoted)
  /-- Too many arguments: the fault shows those for which there is no name. -/
  extra : params.rest = none → params.required.length < args.length → ∃ texts,
    List.Forall₂ (fun arg text => arg.inspect s.cells = .ok text) (args.drop params.required.length) texts ∧
    enter params outer args s = .fault (.arity (.extra texts)) s
  /-- Otherwise there is one frame more, inside of the frame of the function. -/
  frame : params.required.length ≤ args.length → (params.rest = none → args.length = params.required.length) →
    ∃ bindings, enter params outer args s = .value s.frames.size (s.addFrame ⟨some outer, bindings⟩) ∧
      params.Assigns args bindings

/-- What a call binds, one after the other. -/
def Parameters.assigned (params : Parameters) (args : List Value) : Bindings :=
  params.required.zip args ++
    (params.rest.map fun rest => (rest, .ofList (args.drop params.required.length))).toList

namespace Parameters

variable {params : Parameters} {args : List Value}

theorem bind_of_missing (h : args.length < params.required.length) :
    params.bind args = Run.fail (.arity (.missing (params.required.drop args.length))) := by
  have hlength : (params.required.take args.length).length = args.length := List.length_take_of_le (Nat.le_of_lt h)
  have htail : ∀ form ∈ params.restForms.head?, isRestMark form = true := by
    unfold restForms
    cases params.rest <;> simp [isRestMark]
  have hleft : params.required.drop args.length ≠ [] := by
    rw [ne_eq, List.drop_eq_nil_iff]
    exact Nat.not_le.2 h
  -- the first names take all arguments
  rw [bind, forms_eq, ← List.take_append_drop args.length params.required, List.map_append, List.append_assoc,
    bindForms_required (fun hmem => params.restMark_notMem (List.mem_of_mem_take hmem)) _ (Nat.le_of_eq hlength),
    hlength, List.drop_length, bindForms_missing (fun hmem => params.restMark_notMem (List.mem_of_mem_drop hmem))
      htail hleft]
  simp

theorem bind_of_le (h : params.required.length ≤ args.length) : params.bind args =
    bindForms (Bindings.bindAll [] (params.required.zip args)) params.restForms (args.drop params.required.length) := by
  rw [bind, forms_eq, bindForms_required params.restMark_notMem _ h]

/-- Arguments that fit are bound in their order. -/
theorem bind_of_fits (h : params.required.length ≤ args.length)
    (hrest : params.rest = none → args.length = params.required.length) :
    params.bind args = pure (Bindings.bindAll [] (params.assigned args)) := by
  rw [bind_of_le h, restForms, assigned]
  cases hname : params.rest with
  | none =>
    rw [← hrest hname, List.drop_length, Option.map_none, Option.toList_none, List.append_nil]
    rfl
  | some name =>
    rw [bindForms_mark _ (by simp [isRestMark]), Bindings.bindAll_append]
    rfl

theorem names_assigned (h : params.required.length ≤ args.length) (name : String) :
    name ∈ (params.assigned args).map (·.1) ↔ name ∈ params.required ∨ params.rest = some name := by
  rw [assigned, List.map_append, List.map_fst_zip h, List.mem_append]
  cases params.rest <;> simp [eq_comm]

theorem assigns_assigned (h : params.required.length ≤ args.length) :
    params.Assigns args (Bindings.bindAll [] (params.assigned args)) where
  bound_iff name := Bindings.isSome_find?_bindAll.trans (names_assigned h name)
  required i name hname hlate hrest := by
    obtain ⟨hi, rfl⟩ := List.getElem?_eq_some_iff.1 hname
    have hargs : i < args.length := Nat.lt_of_lt_of_le hi h
    have hzip : i < (params.required.zip args).length := by rw [List.length_zip]; omega
    have hlast : ∀ pair ∈ (params.required.zip args).drop (i + 1) ++
        (params.rest.map fun rest => (rest, Value.ofList (args.drop params.required.length))).toList,
        pair.1 ≠ params.required[i] := by
      intro pair hpair heq
      rcases List.mem_append.1 hpair with hpair | hpair
      · refine hlate ?_
        rw [← heq, ← List.map_fst_zip h, ← List.map_drop]
        exact List.mem_map_of_mem hpair
      · obtain ⟨rest, hname, rfl⟩ := Option.map_eq_some_iff.1 (Option.mem_toList.1 hpair)
        exact hrest (hname.trans (congrArg some heq))
    have hsplit := (List.take_append_drop i (params.required.zip args)).symm
    rw [List.drop_eq_getElem_cons hzip, List.getElem_zip] at hsplit
    rw [assigned, hsplit, List.append_assoc, List.cons_append, Bindings.find?_bindAll_last hlast,
      List.getElem?_eq_getElem hargs]
  rest name hname := by
    rw [assigned, hname]
    exact Bindings.find?_bindAll_last (by simp) _ _

theorem enter_of_bind {bindings : Bindings} (h : params.bind args = pure bindings) (outer : FrameId) (s : State) :
    enter params outer args s = .value s.frames.size (s.addFrame ⟨some outer, bindings⟩) := by
  rw [enter, h]
  rfl

theorem enter_of_fault {fault : Fault} {s : State} (h : params.bind args s = .fault fault s) (outer : FrameId) :
    enter params outer args s = .fault fault s := Run.bind_eq_fault.2 (.inl h)

/-- What a call comes to when it enters a function is settled by the number of its arguments. -/
theorem enters {s : State} (hshown : ∀ arg ∈ args, ∃ text, arg.inspect s.cells = .ok text) (outer : FrameId) :
    params.Enters outer args s := by
  have hmissing : args.length < params.required.length →
      enter params outer args s = .fault (.arity (.missing (params.required.drop args.length))) s := fun hless =>
    enter_of_fault (by rw [bind_of_missing hless]; rfl) outer
  have hextra : params.rest = none → params.required.length < args.length → ∃ texts,
      List.Forall₂ (fun arg text => arg.inspect s.cells = .ok text) (args.drop params.required.length) texts ∧
      enter params outer args s = .fault (.arity (.extra texts)) s := by
    intro hrest hmore
    have hleft : args.drop params.required.length ≠ [] := by
      rw [ne_eq, List.drop_eq_nil_iff]
      exact Nat.not_le.2 hmore
    obtain ⟨texts, hall, hfault⟩ := bindForms_extra hleft (fun arg harg => hshown arg (List.mem_of_mem_drop harg))
      (Bindings.bindAll [] (params.required.zip args))
    refine ⟨texts, hall, enter_of_fault ?_ outer⟩
    rw [bind_of_le (Nat.le_of_lt hmore), restForms, hrest]
    exact hfault
  have hframe : params.required.length ≤ args.length → (params.rest = none → args.length = params.required.length) →
      enter params outer args s =
        .value s.frames.size (s.addFrame ⟨some outer, Bindings.bindAll [] (params.assigned args)⟩) :=
    fun hle hrest => enter_of_bind (bind_of_fits hle hrest) outer s
  refine ⟨⟨?_, ?_⟩, fun hless => ⟨_, hmissing hless, rfl, ?_⟩, hextra, fun hle hrest =>
    ⟨_, hframe hle hrest, assigns_assigned hle⟩⟩
  · rintro ⟨fault, t, hfault⟩
    by_contra hfits
    rw [not_or, Nat.not_lt, not_and, Nat.not_lt] at hfits
    rw [hframe hfits.1 fun hnone => Nat.le_antisymm (hfits.2 hnone) hfits.1] at hfault
    cases hfault
  · rintro (hless | ⟨hrest, hmore⟩)
    · exact ⟨_, _, hmissing hless⟩
    · obtain ⟨texts, -, hfault⟩ := hextra hrest hmore
      exact ⟨_, _, hfault⟩
  · show "Too few arguments; missing " ++ toString (params.required.drop args.length).length ++ _ ++ _ = _
    rw [List.length_drop]

end Parameters

/-- Forms that are accepted as a parameter list are names, and perhaps the rest mark and one more name. A call with
these parameters, and with arguments that have texts, fails exactly if there are fewer arguments than names before
the rest mark, or more than names if there is no rest mark, and then for the count of the arguments alone. Otherwise
it adds a frame inside of the frame of the function, in which exactly the names are bound. -/
theorem enter_binds {forms args : List Value} {params : Parameters} {s₀ t₀ s : State}
    (haccepted : Parameters.ofForms forms s₀ = .value params t₀)
    (hshown : ∀ arg ∈ args, ∃ text, arg.inspect s.cells = .ok text) (outer : FrameId) :
    forms = params.required.map .symbol ++ params.restForms ∧ params.Enters outer args s := by
  obtain ⟨hforms, -⟩ := Parameters.ofForms_eq_value_iff.1 haccepted
  exact ⟨hforms.trans params.forms_eq, params.enters hshown outer⟩

/-- A parameter list whose first name is listed once more, for the arguments that are left. -/
def repeatedFirst : Parameters := ⟨["a", "b"], some "a", by decide⟩

theorem enter_binds_repeatedFirst :
    let s := State.initial [] (.tree []) "" true 0
    let forms : List Value := [.symbol "a", .symbol "b", .symbol "&", .symbol "a"]
    Parameters.ofForms forms s = .value repeatedFirst s ∧
    (∀ arg ∈ [Value.nil, .bool true, .bool false], ∃ text, arg.inspect s.cells = .ok text) ∧
    (∃ bindings, enter repeatedFirst rootFrame [.nil, .bool true, .bool false] s =
      .value 1 (s.addFrame ⟨some rootFrame, bindings⟩) ∧
      bindings.find? "a" = some (.ofList [.bool false]) ∧ bindings.find? "b" = some (.bool true)) ∧
    enter repeatedFirst rootFrame [.nil] s = .fault (.arity (.missing ["b"])) s := by
  intro s forms
  have hshown : ∀ arg ∈ [Value.nil, .bool true, .bool false], ∃ text, arg.inspect s.cells = .ok text := by
    simp only [List.forall_mem_cons]
    exact ⟨⟨"nil", rfl⟩, ⟨"true", rfl⟩, ⟨"false", rfl⟩, nofun⟩
  have haccepted : Parameters.ofForms forms s = .value repeatedFirst s := rfl
  obtain ⟨-, hall⟩ := enter_binds haccepted hshown rootFrame
  obtain ⟨-, hfew⟩ := enter_binds haccepted (List.forall_mem_singleton.2 (hshown _ List.mem_cons_self)) rootFrame
  obtain ⟨bindings, hentered, hassigns⟩ := hall.frame (by decide) nofun
  obtain ⟨_, hfault, rfl, -⟩ := hfew.missing (by decide)
  refine ⟨haccepted, hshown, ⟨bindings, hentered, hassigns.rest "a" rfl, ?_⟩, hfault⟩
  exact hassigns.required 1 "b" rfl (by decide) (by decide)

end SmallLisp
