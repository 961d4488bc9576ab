/-
Runs over states that are alike. Two runs meet if from states that agree they come to ends that agree, with
as many frames as before; `RunsAlike` allows for new frames. Here for the runs that everything else is made
of: none of them tells states that agree apart.
-/
import SmallLisp.Proofs.Run.Judgement
import SmallLisp.Proofs.Run.Pairs
import SmallLisp.Proofs.Value.Likeness

namespace SmallLisp

/-- What of a state lies outside of the stores of frames and cells. -/
def State.outside (s : State) : State := { s with frames := #[], cells := #[] }

/-- Whether a fault is one of the evaluation itself, and no value that a program raised. -/
def Fault.IsOwn (f : Fault) : Prop := ∀ v shown, f ≠ .thrown v shown

namespace Likeness

variable {L : Likeness} {n : Nat}

theorem Alike.corresponds {v w : Value} (h : L.Alike n v w) : v.Corresponds (L.Alike n) (L.refers n) w := by
  have hvw := h
  cases h with
  | nil => exact .nil
  | bool b => exact .bool b
  | int i => exact .int i
  | float x => exact .float x
  | str text => exact .str text
  | symbol name => exact .symbol name
  | keyword name => exact .keyword name
  | cell id => exact .cell id
  | list hitems => exact .list hitems
  | vector hitems => exact .vector hitems
  | map => exact .map (hvw.entries.imp fun _ _ h => ⟨h.key, h.value⟩)
  | closure params isMacro hbody hframe => exact .closure params isMacro hbody hframe
  | primitive isMacro => exact .primitive _ isMacro

/-- Alikeness of values as what evaluation keeps up. -/
abbrev agreement (L : Likeness) : Agreement where
  agree := L.Alike
  refers := L.refers
  key := L.Alike
  mono h := Alike.mono h
  refers_mono := L.refers_mono
  key_mono h := Alike.mono h
  corresponds := Alike.corresponds
  nil := .nil
  symbol := .symbol
  list := alike_ofList
  vector := alike_ofVector
  map h := alike_ofEntries (EntriesAlike.ofList (h.imp fun _ _ h => ⟨h.1, h.2⟩))
  closure params _ _ _ hbody hframe := .closure params false hbody hframe fun _ => .nil
  asMacro? := Alike.asMacro?

/-! ## States that are alike -/

/-- Faults that agree. Of a thrown value its text at the time has to be the same as well. -/
inductive FaultAlike (L : Likeness) (n : Nat) : Fault → Fault → Prop where
  | thrown {v w : Value} (shown : String) : L.Alike n v w → FaultAlike L n (.thrown v shown) (.thrown w shown)
  | own {f : Fault} : f.IsOwn → FaultAlike L n f f

/-- What a handler gets to see agrees. -/
theorem FaultAlike.caught {f g : Fault} (h : L.FaultAlike n f g) : L.Alike n f.caught g.caught := by
  cases h with
  | thrown shown h => exact h
  | own h =>
    cases f with
    | thrown v shown => exact absurd rfl (h v shown)
    | _ => exact .str _

theorem FaultAlike.message_eq {f g : Fault} (h : L.FaultAlike n f g) : f.message = g.message := by
  cases h <;> rfl

/-- Bindings of the same names to values that agree. -/
structure BindingAlike (L : Likeness) (n : Nat) (a b : String × Value) : Prop where
  name_eq : a.1 = b.1
  value : L.Alike n a.2 b.2

abbrev BindingsAlike (L : Likeness) (n : Nat) : Bindings → Bindings → Prop := List.Forall₂ (L.BindingAlike n)

/-- Frames that agree, at the same place, inside of the same frame. -/
structure FrameAlike (L : Likeness) (n : Nat) (id : FrameId) (a b : Frame) : Prop where
  outer_eq : a.outer = b.outer
  refers : ∀ outer, a.outer = some outer → L.refers id outer
  bindings : L.BindingsAlike n a.bindings b.bindings

/-- States of `n` frames that agree. -/
structure StatesAlike (L : Likeness) (n : Nat) (s t : State) : Prop where
  size_left : s.frames.size = n
  size_right : t.frames.size = n
  root : L.refers n rootFrame
  frames : ∀ id : FrameId, Option.Rel (L.FrameAlike n id) s.frames[id]? t.frames[id]?
  cells : L.CellsAlike n s.cells t.cells
  outside : s.outside = t.outside

/-! ## Bindings -/

namespace BindingsAlike

variable {as bs : Bindings} (h : L.BindingsAlike n as bs)
include h

theorem mono {m : Nat} (hnm : n ≤ m) : L.BindingsAlike m as bs := h.imp fun _ _ h => ⟨h.name_eq, h.value.mono hnm⟩

theorem find? (name : String) : Option.Rel (L.Alike n) (Bindings.find? as name) (Bindings.find? bs name) := by
  induction h with
  | nil => exact .none
  | @cons a b as bs hab _ ih =>
    rw [Bindings.find?, Bindings.find?, hab.name_eq]
    split
    · exact .some hab.value
    · exact ih

theorem exists_alike {name : String} {v : Value} (hmem : (name, v) ∈ as) : ∃ w, L.Alike n v w := by
  induction h with
  | nil => cases hmem
  | cons hab _ ih =>
    rcases List.mem_cons.1 hmem with rfl | hmem
    · exact ⟨_, hab.value⟩
    · exact ih hmem

theorem bind (name : String) {v w : Value} (hvw : L.Alike n v w) :
    L.BindingsAlike n (Bindings.bind name v as) (Bindings.bind name w bs) := by
  induction h with
  | nil => exact .cons ⟨rfl, hvw⟩ .nil
  | @cons a b as bs hab hrest ih =>
    rw [Bindings.bind, Bindings.bind, hab.name_eq]
    split
    · exact .cons ⟨rfl, hvw⟩ hrest
    · exact .cons ⟨rfl, hab.value⟩ ih

end BindingsAlike

/-! ## What states hold -/

namespace StatesAlike

variable {s t : State} (h : L.StatesAlike n s t)
include h

/-- What does not tell frames that agree apart comes to the same for all frames. -/
theorem frames_map_eq {γ : Type} {g : Frame → γ} (hg : ∀ {id a b}, L.FrameAlike n id a b → g a = g b) :
    s.frames.map g = t.frames.map g := by
  refine Array.ext_getElem? fun id => ?_
  have hframe := h.frames id
  rw [Array.getElem?_map, Array.getElem?_map]
  generalize s.frames[id]? = frame at hframe
  generalize t.frames[id]? = frame' at hframe
  cases hframe with
  | none => rfl
  | some hframe => exact congrArg some (hg hframe)

/-- Whatever is held agrees with something. -/
theorem exists_alike {v : Value} (hv : s.Holds v) : ∃ w, L.Alike n v w := by
  cases hv with
  | @bound id frame name hframe hmem =>
    have hid := h.frames id
    rw [hframe] at hid
    generalize t.frames[id]? = frame' at hid
    cases hid with
    | some hid => exact hid.bindings.exists_alike hmem
  | @content id hcell =>
    have hid := h.cells.each id
    rw [Array.getD_eq_getD_getElem?, hcell] at hid
    exact ⟨_, hid⟩

/-! ## Changes of states -/

theorem output_eq : s.output = t.output := by
  have := congrArg State.output h.outside
  exact this

theorem resolveWithin (name : String) (steps : Nat) (id : FrameId) :
    Option.Rel (fun a b => a.1 = b.1 ∧ L.Alike n a.2 b.2) (s.resolveWithin name steps id)
      (t.resolveWithin name steps id) := by
  induction steps generalizing id with
  | zero => exact .none
  | succ steps ih =>
    rw [State.resolveWithin, State.resolveWithin]
    have hframe := h.frames id
    generalize s.frames[id]? = frame at hframe
    generalize t.frames[id]? = frame' at hframe
    cases hframe with
    | none => exact .none
    | @some frame frame' hframe =>
      have hfind := hframe.bindings.find? name
      dsimp only
      rw [← hframe.outer_eq]
      generalize frame.bindings.find? name = found at hfind
      generalize frame'.bindings.find? name = found' at hfind
      cases hfind with
      | some hvalue => exact .some ⟨rfl, hvalue⟩
      | none =>
        cases frame.outer with
        | none => exact .none
        | some outer => exact ih outer

/-- A name stands for values that agree, or for none. -/
theorem get? (id : FrameId) (name : String) : Option.Rel (L.Alike n) (s.get? id name) (t.get? id name) := by
  have hresolve := h.resolveWithin name (id + 1) id
  unfold State.get? State.resolve?
  generalize s.resolveWithin name (id + 1) id = found at hresolve
  generalize t.resolveWithin name (id + 1) id = found' at hresolve
  cases hresolve with
  | none => exact .none
  | some h => exact .some h.2

theorem define (id : FrameId) (name : String) {v w : Value} (hvw : L.Alike n v w) :
    L.StatesAlike n (s.define id name v) (t.define id name w) where
  size_left := (Array.size_modify ..).trans h.size_left
  size_right := (Array.size_modify ..).trans h.size_right
  root := h.root
  cells := h.cells
  outside := h.outside
  frames i := by
    have hframe := h.frames i
    show Option.Rel _ (s.frames.modify id _)[i]? (t.frames.modify id _)[i]?
    rw [Array.getElem?_modify, Array.getElem?_modify]
    split
    · generalize s.frames[i]? = frame at hframe
      generalize t.frames[i]? = frame' at hframe
      cases hframe with
      | none => exact .none
      | some hframe => exact .some ⟨hframe.outer_eq, hframe.refers, hframe.bindings.bind name hvw⟩
    · exact hframe

/-- A new frame inside of one that may be referred to. -/
theorem addFrame {outer : FrameId} (houter : L.refers n outer) {as bs : Bindings}
    (hbindings : L.BindingsAlike n as bs) :
    L.StatesAlike (n + 1) (s.addFrame ⟨some outer, as⟩) (t.addFrame ⟨some outer, bs⟩) where
  size_left := by rw [State.addFrame, Array.size_push, h.size_left]
  size_right := by rw [State.addFrame, Array.size_push, h.size_right]
  root := L.refers_mono (Nat.le_succ n) h.root
  cells := ⟨h.cells.size_eq, fun id => (h.cells.each id).mono (Nat.le_succ n)⟩
  outside := h.outside
  frames i := by
    have hframe := h.frames i
    show Option.Rel _ (s.frames.push _)[i]? (t.frames.push _)[i]?
    rw [Array.getElem?_push, Array.getElem?_push, h.size_left, h.size_right]
    split
    · next hi =>
      refine .some ⟨rfl, fun o ho => ?_, hbindings.mono (Nat.le_succ n)⟩
      obtain rfl := Option.some.inj ho
      rw [hi]
      exact houter
    · generalize s.frames[i]? = frame at hframe
      generalize t.frames[i]? = frame' at hframe
      cases hframe with
      | none => exact .none
      | some hframe => exact .some ⟨hframe.outer_eq, hframe.refers, hframe.bindings.mono (Nat.le_succ n)⟩

theorem addCell {v w : Value} (hvw : L.Alike n v w) : L.StatesAlike n (s.addCell v) (t.addCell w) where
  size_left := h.size_left
  size_right := h.size_right
  root := h.root
  frames := h.frames
  outside := h.outside
  cells := by
    refine ⟨by simp only [State.addCell, Array.size_push, h.cells.size_eq], fun id => ?_⟩
    have hid := h.cells.each id
    simp only [State.addCell, Array.getD_eq_getD_getElem?, Array.getElem?_push] at hid ⊢
    rw [h.cells.size_eq]
    split
    · exact hvw
    · exact hid

theorem setContent (id : CellId) {v w : Value} (hvw : L.Alike n v w) :
    L.StatesAlike n (s.setContent id v) (t.setContent id w) where
  size_left := h.size_left
  size_right := h.size_right
  root := h.root
  frames := h.frames
  outside := h.outside
  cells := by
    refine ⟨by simp only [State.setContent, Array.set!_eq_setIfInBounds, Array.size_setIfInBounds, h.cells.size_eq],
      fun i => ?_⟩
    have hi := h.cells.each i
    simp only [State.setContent, Array.set!_eq_setIfInBounds, Array.getD_eq_getD_getElem?,
      Array.getElem?_setIfInBounds] at hi ⊢
    rw [h.cells.size_eq]
    split
    · split
      · exact hvw
      · exact .nil
    · exact hi

/-- A change to what lies outside of the stores. -/
theorem of_outside {s' t' : State} (hs : s'.frames = s.frames ∧ s'.cells = s.cells)
    (ht : t'.frames = t.frames ∧ t'.cells = t.cells) (houtside : s'.outside = t'.outside) : L.StatesAlike n s' t' where
  size_left := by rw [hs.1, h.size_left]
  size_right := by rw [ht.1, h.size_right]
  root := h.root
  frames id := by rw [hs.1, ht.1]; exact h.frames id
  cells := by rw [hs.2, ht.2]; exact h.cells
  outside := houtside

end StatesAlike

/-! ## Runs that meet -/

/-- From states of `n` frames that agree, the runs come to ends that agree, and add no frames. -/
def Meets (L : Likeness) (n : Nat) {α β : Type} (x : Run α) (y : Run β) (Q : α → β → Prop) : Prop :=
  Run.Relates (L.StatesAlike n) (L.FaultAlike n) x y Q

/-- The same for runs that may add frames. -/
def RunsAlike (L : Likeness) (n : Nat) {α β : Type} (x : Run α) (y : Run β) (Q : Nat → α → β → Prop) : Prop :=
  Run.RelatesFrom L.StatesAlike L.FaultAlike n x y Q

namespace Meets

variable {α β : Type}

theorem failOwn {f : Fault} (h : f.IsOwn) (Q : α → β → Prop) : L.Meets n (Run.fail f) (Run.fail f) Q := .fail (.own h) Q

theorem failKind (cause : KindFault) (Q : α → β → Prop) : L.Meets n (Run.failKind cause) (Run.failKind cause) Q :=
  failOwn (by simp [Fault.IsOwn]) Q

theorem own_arity (cause : ArityFault) : (Fault.arity cause).IsOwn := by simp [Fault.IsOwn]

theorem failArity (cause : ArityFault) (Q : α → β → Prop) :
    L.Meets n (Run.fail (.arity cause)) (Run.fail (.arity cause)) Q := failOwn (own_arity cause) Q

/-- What is computed from states that agree, and does not tell them apart. -/
theorem ask {f g : State → Except Fault α} (h : ∀ s t, L.StatesAlike n s t → f s = g t)
    (hown : ∀ s, FailsOnly Fault.IsOwn (f s)) : L.Meets n (Run.ask f) (Run.ask g) Eq :=
  Run.Relates.ask h fun s cause hf => .own (hown s cause hf)

theorem ofExcept {x : Except Fault α} (hown : FailsOnly Fault.IsOwn x) :
    L.Meets n (Run.ofExcept x) (Run.ofExcept x) Eq := ask (fun _ _ _ => rfl) fun _ => hown

theorem own_integerTooLong : Fault.integerTooLong.IsOwn := by simp [Fault.IsOwn]

theorem own_endlessText : Fault.endlessText.IsOwn := by simp [Fault.IsOwn]

section Texts

variable {v w : Value} (h : L.Alike n v w)
include h

theorem shown : L.Meets n (Run.shown v) (Run.shown w) Eq :=
  ask (fun _ _ hst => h.text_eq hst.cells true) fun s =>
    Value.text_fails own_integerTooLong own_endlessText s.cells true v

theorem plain : L.Meets n (Run.plain v) (Run.plain w) Eq :=
  ask (fun _ _ hst => h.text_eq hst.cells false) fun s =>
    Value.text_fails own_integerTooLong own_endlessText s.cells false v

theorem inspected : L.Meets n (Run.inspected v) (Run.inspected w) Eq :=
  ask (fun _ _ hst => h.inspect_eq hst.cells) fun s => Value.inspect_fails own_integerTooLong own_endlessText s.cells v

theorem failShowing (cause : String → KindFault) (Q : α → β → Prop) :
    L.Meets n (Run.failShowing v cause) (Run.failShowing w cause) Q := by
  refine .bind (shown h) ?_
  rintro text _ rfl
  exact failKind _ Q

theorem failInspecting (cause : String → KindFault) (Q : α → β → Prop) :
    L.Meets n (Run.failInspecting v cause) (Run.failInspecting w cause) Q := by
  refine .bind (inspected h) ?_
  rintro text _ rfl
  exact failKind _ Q

end Texts

/-! ### Frames and cells -/

theorem define (frame : FrameId) (name : String) {v w : Value} (h : L.Alike n v w) :
    L.Meets n (Run.define frame name v) (Run.define frame name w) fun _ _ => True :=
  .modify fun _ _ hst => hst.define frame name h

theorem newCell {v w : Value} (h : L.Alike n v w) : L.Meets n (Run.newCell v) (Run.newCell w) Eq :=
  fun _ _ hst => .value hst.cells.size_eq (hst.addCell h)

theorem content (id : CellId) : L.Meets n (Run.content id) (Run.content id) (L.Alike n) :=
  fun _ _ hst => .value (hst.cells.each id) hst

theorem setContent (id : CellId) {v w : Value} (h : L.Alike n v w) :
    L.Meets n (Run.setContent id v) (Run.setContent id w) fun _ _ => True := .modify fun _ _ hst => hst.setContent id h

/-! ### Console, files and clock -/

theorem print (text : String) : L.Meets n (Run.print text) (Run.print text) fun _ _ => True := by
  refine .modify fun s t hst => hst.of_outside ⟨rfl, rfl⟩ ⟨rfl, rfl⟩ ?_
  exact congrArg (State.print · text) hst.outside

theorem nextLine : L.Meets n Run.nextLine Run.nextLine Eq := by
  intro s t hst
  have hline : s.nextLine = t.nextLine := by
    have := congrArg State.nextLine hst.outside
    exact this
  unfold Run.nextLine
  rw [hline]
  cases t.nextLine with
  | line text rest =>
    refine .value rfl (hst.of_outside ⟨rfl, rfl⟩ ⟨rfl, rfl⟩ ?_)
    exact congrArg (fun u : State => { u with input := rest }) hst.outside
  | ended => exact .value rfl hst
  | waiting => exact .halted _ hst

theorem tryReadFile (path : Path) : L.Meets n (Run.tryReadFile path) (Run.tryReadFile path) Eq := by
  intro s t hst
  have hfiles : s.files = t.files := by
    have := congrArg State.files hst.outside
    exact this
  unfold Run.tryReadFile
  rw [hfiles]
  cases t.files.lookup? path with
  | none => exact .halted _ hst
  | some answer => cases answer <;> exact .value rfl hst

theorem readFile (path : Path) : L.Meets n (Run.readFile path) (Run.readFile path) Eq := by
  refine .bind (tryReadFile path) ?_
  rintro answer _ rfl
  cases answer with
  | ok text => exact .pure rfl
  | error cause => exact failOwn (by simp [Fault.IsOwn]) _

theorem readClock : L.Meets n Run.readClock Run.readClock Eq := by
  intro s t hst
  have hclock : s.clock = t.clock := by
    have := congrArg State.clock hst.outside
    exact this
  unfold Run.readClock
  rw [hclock]
  refine .value rfl (hst.of_outside ⟨rfl, rfl⟩ ⟨rfl, rfl⟩ ?_)
  exact congrArg (fun u : State => { u with clock := t.clock + 1 }) hst.outside

/-! ### What is demanded of arguments -/

variable {vs ws : List Value}

/-- Checks that are passed alike, or not. -/
theorem of_checks {Q : α → β → Prop} {x : Run α} {y : Run β} (h : Run.Checks Q x y) : L.Meets n x y Q := by
  cases h with
  | passed hab => exact .pure hab
  | kind cause => exact failKind cause Q
  | arity cause => exact failArity cause Q

theorem exactlyOne (name : String) (h : L.AllAlike n vs ws) :
    L.Meets n (Run.exactlyOne name vs) (Run.exactlyOne name ws) (L.Alike n) := of_checks (.exactlyOne name h)

theorem exactlyTwo (name : String) (h : L.AllAlike n vs ws) :
    L.Meets n (Run.exactlyTwo name vs) (Run.exactlyTwo name ws) fun a b => L.Alike n a.1 b.1 ∧ L.Alike n a.2 b.2 :=
  of_checks (.exactlyTwo name h)

theorem oneOrMore (name : String) (h : L.AllAlike n vs ws) :
    L.Meets n (Run.oneOrMore name vs) (Run.oneOrMore name ws) fun a b => L.Alike n a.1 b.1 ∧ L.AllAlike n a.2 b.2 :=
  of_checks (.oneOrMore name h)

theorem twoOrMore (name : String) (h : L.AllAlike n vs ws) :
    L.Meets n (Run.twoOrMore name vs) (Run.twoOrMore name ws) fun a b =>
      L.Alike n a.1 b.1 ∧ L.Alike n a.2.1 b.2.1 ∧ L.AllAlike n a.2.2 b.2.2 := by
  cases h with
  | nil => exact failArity _ _
  | cons hv hrest =>
    cases hrest with
    | nil => exact failArity _ _
    | cons hw hrest => exact .pure ⟨hv, hw, hrest⟩

section Demands

variable {v w : Value} (h : L.Alike n v w)
include h

theorem sequence (name : String) : L.Meets n (Run.sequence name v) (Run.sequence name w) (L.AllAlike n) := by
  have hvw := h
  cases h with
  | nil => exact .pure .nil
  | list hitems | vector hitems => exact .pure hitems
  | _ => exact failShowing hvw _ _

theorem entries (name : String) : L.Meets n (Run.entries name v) (Run.entries name w) (L.EntriesAlike n) := by
  have hvw := h
  cases h with
  | nil => exact .pure .nil
  | map hkeys hvalues => exact .pure (entriesAlike_iff.2 ⟨hkeys, hvalues⟩)
  | _ => exact failShowing hvw _ _

theorem requireCell (name : String) : L.Meets n (Run.requireCell name v) (Run.requireCell name w) Eq := by
  have hvw := h
  cases h with
  | cell id => exact .pure rfl
  | _ => exact failShowing hvw _ _

theorem requireKey (name : String) : L.Meets n (Run.requireKey name v) (Run.requireKey name w) fun _ _ => True := by
  unfold Run.requireKey
  rw [h.isFunction_eq, h.isImmutable_eq]
  split
  · exact failKind _ _
  · split
    · exact .pure trivial
    · exact failShowing h _ _

end Demands

theorem numbers (name : String) (h : L.AllAlike n vs ws) :
    L.Meets n (Run.numbers name vs) (Run.numbers name ws) Eq := by
  induction h with
  | nil => exact .pure rfl
  | cons hv _ ih =>
    unfold Run.numbers
    rw [hv.number?_eq]
    split
    · refine .bind ih ?_
      rintro ns _ rfl
      exact .pure rfl
    · exact failShowing hv _ _

end Meets

end Likeness

end SmallLisp
