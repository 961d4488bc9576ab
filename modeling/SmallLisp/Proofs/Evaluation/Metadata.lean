/-
Metadata has no part in what a program does. Where the primitive `meta` cannot be reached, and nothing is up to
identity, evaluations that start from the same but for metadata come to the same but for metadata (`evaluate_erased`):
to values or to faults, with the same texts printed. Only `meta` looks at metadata; all other operations carry it along,
hide it, or drop it. But a value with other metadata is another object, so an elusive key is not found with it.
-/
import SmallLisp.Proofs.Evaluation.Identity
import SmallLisp.Proofs.Run.Limit
import SmallLisp.Proofs.Value.Erasure
import SmallLisp.Session

namespace SmallLisp

open Run (Comes)

/-! ## States without metadata -/

def Bindings.erased (bindings : Bindings) : Bindings := bindings.map fun binding => (binding.1, binding.2.erased)

def Frame.erased (frame : Frame) : Frame := ⟨frame.outer, frame.bindings.erased⟩

/-- The state without metadata on anything that a frame or a cell holds. -/
def State.erased (s : State) : State :=
  { s with frames := s.frames.map Frame.erased, cells := s.cells.map Value.erased }

/-- Whether nothing that a frame or a cell holds is a certain primitive, or has it inside. -/
def State.Lacks (p : Primitive) (s : State) : Prop := ∀ v, s.Holds v → v.Lacks p

/-- The fault without metadata on a thrown value. -/
def Fault.erased : Fault → Fault
  | .thrown v shown => .thrown v.erased shown
  | f => f

namespace Likeness

variable {n : Nat} {s t : State}

theorem FaultAlike.erased_eq {f g : Fault} (h : upToInfo.FaultAlike n f g) : f.erased = g.erased := by
  cases h with
  | thrown shown h => rw [Fault.erased, Fault.erased, h.erased_eq]
  | own => rfl

theorem BindingsAlike.erased_eq {as bs : Bindings} (h : upToInfo.BindingsAlike n as bs) : as.erased = bs.erased := by
  induction h with
  | nil => rfl
  | @cons a b as bs hab _ ih =>
    show (a.1, a.2.erased) :: Bindings.erased as = (b.1, b.2.erased) :: Bindings.erased bs
    rw [hab.name_eq, hab.value.erased_eq, ih]

theorem bindingsAlike_of_erased : ∀ {as bs : Bindings}, as.erased = bs.erased → as.Each (Value.Lacks .getMeta) →
    upToInfo.BindingsAlike n as bs
  | [], [], _, _ => .nil
  | [], _ :: _, h, _ => by cases h
  | _ :: _, [], h, _ => by cases h
  | (name, v) :: as, (name', w) :: bs, h, hlacks => by
    obtain ⟨hv, hrest⟩ := List.forall_mem_cons.1 hlacks
    injection h with hbinding hbindings
    injection hbinding with hname hvalue
    exact .cons ⟨hname, alike_of_erased hvalue hv⟩ (bindingsAlike_of_erased hbindings hrest)

theorem FrameAlike.erased_eq {id : FrameId} {a b : Frame} (h : upToInfo.FrameAlike n id a b) : a.erased = b.erased := by
  rw [Frame.erased, Frame.erased, h.outer_eq, h.bindings.erased_eq]

theorem frameAlike_of_erased {id : FrameId} {a b : Frame} (h : a.erased = b.erased)
    (hlacks : a.bindings.Each (Value.Lacks .getMeta)) : upToInfo.FrameAlike n id a b := by
  injection h with houter hbindings
  exact ⟨houter, fun _ _ => trivial, bindingsAlike_of_erased hbindings hlacks⟩

theorem getD_map_erased (cells : Array Value) (id : CellId) :
    (cells.map Value.erased).getD id .nil = (cells.getD id .nil).erased := by
  rw [Array.getD_eq_getD_getElem?, Array.getD_eq_getD_getElem?, Array.getElem?_map]
  cases cells[id]? <;> rfl

theorem cellsAlike_of_erased {cells cells' : Array Value} (h : cells.map Value.erased = cells'.map Value.erased)
    (hlacks : ∀ id : CellId, (cells.getD id .nil).Lacks .getMeta) : upToInfo.CellsAlike n cells cells' where
  size_eq := by simpa only [Array.size_map] using congrArg Array.size h
  each id := by
    refine alike_of_erased ?_ (hlacks id)
    rw [← getD_map_erased, h, getD_map_erased]

theorem StatesAlike.erased_eq (h : upToInfo.StatesAlike n s t) : s.erased = t.erased := by
  have houtside := h.outside
  show { s.outside with frames := s.frames.map Frame.erased, cells := s.cells.map Value.erased } = t.erased
  rw [houtside, h.frames_map_eq FrameAlike.erased_eq, h.cells.map_eq Alike.erased_eq]
  rfl

theorem StatesAlike.lacks (h : upToInfo.StatesAlike n s t) : s.Lacks .getMeta := by
  intro v hv
  obtain ⟨w, hvw⟩ := h.exists_alike hv
  exact hvw.lacks

theorem statesAlike_of_erased (h : s.erased = t.erased) (hlacks : s.Lacks .getMeta) :
    upToInfo.StatesAlike s.frames.size s t := by
  have hframes : s.frames.map Frame.erased = t.frames.map Frame.erased := congrArg State.frames h
  have hsize : s.frames.size = t.frames.size := by simpa only [Array.size_map] using congrArg Array.size hframes
  have houtside : s.outside = t.outside := by
    have := congrArg State.outside h
    exact this
  refine ⟨rfl, hsize.symm, trivial, fun id => ?_, ?_, houtside⟩
  · have hid : (s.frames.map Frame.erased)[id]? = (t.frames.map Frame.erased)[id]? := by rw [hframes]
    have hframe : ∀ frame, s.frames[id]? = some frame → frame.bindings.Each (Value.Lacks .getMeta) :=
      fun frame hframe binding hb => hlacks _ (.bound hframe hb)
    rw [Array.getElem?_map, Array.getElem?_map] at hid
    generalize s.frames[id]? = frame at hid hframe
    generalize t.frames[id]? = frame' at hid
    cases frame <;> cases frame'
    · exact .none
    · cases hid
    · cases hid
    · exact .some (frameAlike_of_erased (Option.some.inj hid) (hframe _ rfl))
  · refine cellsAlike_of_erased (congrArg State.cells h) fun id => ?_
    rw [Array.getD_eq_getD_getElem?]
    cases hcell : s.cells[id]? with
    | none => exact Value.lacks_of_parts_nil rfl fun h => h
    | some v => exact hlacks v (.content hcell)

/-- States agree up to metadata if they are the same without it, and nothing in them looks at metadata. -/
theorem statesAlike_iff_erased : upToInfo.StatesAlike n s t ↔
    s.frames.size = n ∧ s.erased = t.erased ∧ s.Lacks .getMeta := by
  constructor
  · exact fun h => ⟨h.size_left, h.erased_eq, h.lacks⟩
  · rintro ⟨rfl, h, hlacks⟩
    exact statesAlike_of_erased h hlacks

end Likeness

/-! ## Evaluations -/

/-- Ends that are the same but for metadata: values, or faults of the same kind and with the same message, or
halts for want of the same; what was printed is the same, and so is what frames and cells hold but for
metadata. -/
def Outcome.SameButInfo : Outcome Value → Outcome Value → Prop :=
  Outcome.Rel (fun s t => s.erased = t.erased ∧ s.output = t.output)
    (fun f g => f.erased = g.erased ∧ f.message = g.message) fun v w => v.erased = w.erased

open Likeness in
/-- Metadata has no influence on an evaluation that is free of identity. From forms that are the same but for metadata,
in the same frame of states that are the same but for metadata, and where `meta` is neither in the form nor in the
state, every number of steps leads to ends that are the same but for metadata, and the other evaluation is free of
identity as well. So either no number of steps is enough for any of both, or both come to such ends. -/
theorem evaluate_erased {form form' : Value} {s s' : State} (hform : form.erased = form'.erased)
    (hs : s.erased = s'.erased) (hformLacks : form.Lacks .getMeta) (hstateLacks : s.Lacks .getMeta) (frame : FrameId)
    (hfree : FreeOfIdentity form frame s) :
    FreeOfIdentity form' frame s' ∧
    (∀ steps, (evaluate steps form frame s).SameButInfo (evaluate steps form' frame s')) ∧
    ((∀ o, ¬ Comes (fun n => evaluate n form frame) s o) ∧ (∀ o, ¬ Comes (fun n => evaluate n form' frame) s' o) ∨
      ∃ o o', Comes (fun n => evaluate n form frame) s o ∧ Comes (fun n => evaluate n form' frame) s' o' ∧
        o.SameButInfo o') := by
  have hforms : upToInfo.Alike s.frames.size form form' := alike_iff_erased.2 ⟨hform, hformLacks⟩
  have hstates := statesAlike_of_erased hs hstateLacks
  have hframe : upToInfo.refers s.frames.size frame := trivial
  have hsteps : ∀ steps, (evaluate steps form frame s).SameButInfo (evaluate steps form' frame s') := by
    intro steps
    obtain ⟨m, _, hends⟩ := evaluate_runsAlike steps s.frames.size hforms hframe s s' hstates
    exact hends.mono (fun _ _ h => ⟨h.erased_eq, h.output_eq⟩)
      (fun _ _ h => ⟨h.erased_eq, h.message_eq⟩) fun _ _ h => h.erased_eq
  refine ⟨freeOfIdentity_of_alike hfree hforms hframe hstates, hsteps, ?_⟩
  by_cases hends : ∃ steps, (evaluate steps form frame s).Ended
  · obtain ⟨steps, hended⟩ := hends
    exact .inr ⟨_, _, ⟨steps, rfl, hended⟩, ⟨steps, rfl, (hsteps steps).ended_iff.1 hended⟩, hsteps steps⟩
  · refine .inl ⟨?_, ?_⟩
    · rintro o ⟨steps, rfl, hended⟩
      exact hends ⟨steps, hended⟩
    · rintro o ⟨steps, rfl, hended⟩
      exact hends ⟨steps, (hsteps steps).ended_iff.2 hended⟩

open Likeness in
/-- What cannot reach `meta` does not come to reach it. -/
theorem evaluate_lacks {form : Value} {s : State} (hform : form.Lacks .getMeta) (hs : s.Lacks .getMeta) (steps : Nat)
    (frame : FrameId) : (evaluate steps form frame s).state.Lacks .getMeta ∧
      ∀ v t, evaluate steps form frame s = .value v t → v.Lacks .getMeta := by
  obtain ⟨m, _, hends⟩ := evaluate_runsAlike steps s.frames.size (alike_iff_erased.2 ⟨rfl, hform⟩)
    (trivial : upToInfo.refers _ frame) s s (statesAlike_of_erased rfl hs)
  refine ⟨hends.state.lacks, fun v t hv => ?_⟩
  rw [hv] at hends
  cases hends with
  | value h => exact h.lacks

/-! ## Sessions without `meta` -/

/-- The state without any binding of a name. -/
def State.unbinding (s : State) (name : String) : State :=
  { s with
    frames := (s.frames.toList.map fun frame =>
      { frame with bindings := frame.bindings.filter (·.1 != name) }).toArray }

/-- Without its binding in the root frame, a primitive cannot be reached from the state at the start. -/
theorem initial_unbinding_lacks (p : Primitive) (arguments : List String) (files : Files) (input : String)
    (inputEnded : Bool) (clock : Nat) :
    ((State.initial arguments files input inputEnded clock).unbinding p.name).Lacks p := by
  intro v hv
  cases hv with
  | @bound id frame name hframe hmem =>
    rw [State.unbinding, List.getElem?_toArray, List.getElem?_map, Array.getElem?_toList] at hframe
    obtain ⟨root, hroot, rfl⟩ := Option.map_eq_some_iff.1 hframe
    obtain ⟨hmem, hname⟩ := List.mem_filter.1 hmem
    -- there is the root frame only
    obtain ⟨_, rfl⟩ : id = 0 ∧ (⟨none, rootBindings arguments⟩ : Frame) = root := by
      cases id with
      | zero => exact ⟨rfl, Option.some.inj hroot⟩
      | succ id => cases hroot
    rcases List.mem_append.1 hmem with hmem | hmem
    · obtain ⟨q, _, hq⟩ := List.mem_map.1 hmem
      cases hq
      refine Value.lacks_primitive.2 ?_
      rintro rfl
      simp at hname
    · cases List.mem_singleton.1 hmem
      refine Value.lacks_list.2 fun v hv => ?_
      obtain ⟨argument, _, rfl⟩ := List.mem_map.1 hv
      exact Value.lacks_of_parts_nil rfl fun h => h
  | content hcell => cases hcell

/-- The list of true, with metadata. -/
def labelled (info : Value) : Value := .list [.bool true] info

/-- A state without `meta`, and in it a frame that binds `x` to a list with metadata. -/
def labelling (info : Value) : State :=
  ((State.initial [] (.tree []) "" true 0).unbinding "meta").addFrame ⟨some rootFrame, [("x", labelled info)]⟩

/-- Prints `x`, and compares it with a list that is in the form. -/
def comparing (info : Value) : Value :=
  .ofList [.symbol "do", .ofList [.symbol "prn", .symbol "x"],
    .list [.symbol "=", .symbol "x", Template.quoting (labelled info)] info]

section Alike

open Likeness

theorem labelled_alike (n : Nat) (info info' : Value) : upToInfo.Alike n (labelled info) (labelled info') :=
  .list (.cons (.bool true) .nil) False.elim

theorem labelling_alike (info info' : Value) : upToInfo.StatesAlike 2 (labelling info) (labelling info') := by
  have hinitial : upToInfo.StatesAlike 1 ((State.initial [] (.tree []) "" true 0).unbinding "meta") _ :=
    statesAlike_iff_erased.2 ⟨rfl, rfl, initial_unbinding_lacks .getMeta [] (.tree []) "" true 0⟩
  have hbindings : upToInfo.BindingsAlike 1 [("x", labelled info)] [("x", labelled info')] :=
    .cons ⟨rfl, labelled_alike 1 info info'⟩ .nil
  exact hinitial.addFrame trivial hbindings

theorem comparing_alike (n : Nat) (info info' : Value) : upToInfo.Alike n (comparing info) (comparing info') :=
  alike_ofList <| .cons (.symbol "do") <|
    .cons (alike_ofList (.cons (.symbol "prn") (.cons (.symbol "x") .nil))) <|
    .cons (.list (.cons (.symbol "=") (.cons (.symbol "x")
      (.cons (Agreement.quoting (A := upToInfo.agreement) (labelled_alike n info info')) .nil)))
      False.elim) .nil

end Alike

theorem evaluate_erased_comparing :
    (comparing (.str "a")).erased = (comparing .nil).erased ∧ (comparing (.str "a")).Lacks .getMeta ∧
    (labelling (.str "b")).erased = (labelling (.int 5)).erased ∧ (labelling (.str "b")).Lacks .getMeta ∧
    FreeOfIdentity (comparing (.str "a")) 1 (labelling (.str "b")) ∧
    ∃ o o', Comes (fun n => evaluate n (comparing (.str "a")) 1) (labelling (.str "b")) o ∧
      Comes (fun n => evaluate n (comparing .nil) 1) (labelling (.int 5)) o' ∧ o.SameButInfo o' ∧
      o = .value (.bool true) ((labelling (.str "b")).print "(true)\n") := by
  obtain ⟨hform, hformLacks⟩ := Likeness.alike_iff_erased.1 (comparing_alike 2 (.str "a") .nil)
  obtain ⟨-, hs, hstateLacks⟩ := Likeness.statesAlike_iff_erased.1 (labelling_alike (.str "b") (.int 5))
  have hend : evaluate 4 (comparing (.str "a")) 1 (labelling (.str "b")) =
    .value (.bool true) ((labelling (.str "b")).print "(true)\n") := rfl
  have hfree : FreeOfIdentity (comparing (.str "a")) 1 (labelling (.str "b")) := fun d steps =>
    match steps with
    | 0 | 1 | 2 | 3 => rfl
    | steps + 4 => rfl
  obtain ⟨-, hsteps, -⟩ := evaluate_erased hform hs hformLacks hstateLacks 1 hfree
  have hsame := hsteps 4
  have hended : (evaluate 4 (comparing (.str "a")) 1 (labelling (.str "b"))).Ended := by rw [hend]; trivial
  exact ⟨hform, hformLacks, hs, hstateLacks, hfree, _, _, ⟨4, rfl, hended⟩, ⟨4, rfl, hsame.ended_iff.1 hended⟩,
    hsame, hend⟩

end SmallLisp
