/-
Properties of everything that is run. A property of runs is closed (`Run.Closed`) if it holds of the runs that do one
thing to the state, and passes on from runs to what is composed of them. What values an evaluation is about does not
matter for such a property, only what is done, and in which order. Whatever does not touch a frame by itself has a
property that is closed beside frames already (`Run.ClosedBesideFrames`).
-/
import SmallLisp.Parameters
import SmallLisp.Proofs.Run.Likeness

namespace SmallLisp.Run

/-- The property holds of all that is done to what of a state is no frame, and of whatever is composed of runs that
have it. A value is raised as a fault only together with its text. -/
structure ClosedBesideFrames (P : ∀ α : Type, Run α → Prop) : Prop where
  pure {α : Type} (a : α) : P α (Pure.pure a)
  halt {α : Type} (need : Need) : P α (Run.halt need)
  fail {α : Type} {f : Fault} : f.IsOwn → P α (Run.fail f)
  throw (v : Value) : P Value (do Run.fail (.thrown v (← Run.inspected v)))
  bind {α β : Type} {x : Run α} {f : α → Run β} : P α x → (∀ a, P β (f a)) → P β (x >>= f)
  /-- What a run does may depend on the state. -/
  look {α : Type} {x : Run α} : (∀ s, ∃ y : Run α, P α y ∧ x s = y s) → P α x
  newCell (content : Value) : P CellId (Run.newCell content)
  setContent (id : CellId) (content : Value) : P Unit (Run.setContent id content)
  print (text : String) : P Unit (Run.print text)
  nextLine : P (Option String) Run.nextLine
  readClock : P Nat Run.readClock

/-- The property holds of all that is done to a state, frames as well, and of whatever is composed of runs that have
it. -/
structure Closed (P : ∀ α : Type, Run α → Prop) : Prop extends ClosedBesideFrames P where
  handle {α : Type} {x : Run α} {f : Fault → Run α} : P α x → (∀ fault, P α (f fault)) → P α (x.handle f)
  newFrame (outer : FrameId) (bindings : Bindings) : P FrameId (Run.newFrame (some outer) bindings)
  define (frame : FrameId) (name : String) (value : Value) : P Unit (Run.define frame name value)

namespace ClosedBesideFrames

variable {P : ∀ α : Type, Run α → Prop} (h : ClosedBesideFrames P) {α β : Type}
include h

/-! ## Composed runs -/

theorem map {x : Run α} (hx : P α x) (f : α → β) : P β (f <$> x) := by
  rw [map_eq_pure_bind]
  exact h.bind hx fun a => h.pure _

theorem mapM {f : α → Run β} (hf : ∀ a, P β (f a)) : ∀ as : List α, P (List β) (as.mapM f)
  | [] => h.pure _
  | a :: as => by
    rw [List.mapM_cons]
    exact h.bind (hf a) fun b => h.bind (mapM hf as) fun bs => h.pure _

theorem forM {f : α → Run PUnit} (hf : ∀ a, P PUnit (f a)) : ∀ as : List α, P PUnit (as.forM f)
  | [] => h.pure _
  | a :: as => h.bind (hf a) fun _ => forM hf as

/-! ## Looking at the state -/

theorem ask {f : State → Except Fault α} (hf : ∀ s, FailsOnly Fault.IsOwn (f s)) : P α (Run.ask f) := by
  refine h.look fun s => ?_
  unfold Run.ask
  cases hs : f s with
  | ok a => exact ⟨_, h.pure a, rfl⟩
  | error fault => exact ⟨_, h.fail (hf s fault hs), rfl⟩

theorem ofExcept {x : Except Fault α} (hx : FailsOnly Fault.IsOwn x) : P α (Run.ofExcept x) := h.ask fun _ => hx

theorem failKind (cause : KindFault) : P α (Run.failKind cause) := h.fail fun _ _ => nofun

theorem failArity (cause : ArityFault) : P α (Run.fail (.arity cause)) := h.fail fun _ _ => nofun

theorem shown (v : Value) : P String (Run.shown v) :=
  h.ask fun s => Value.text_fails (F := Fault.IsOwn) (fun _ _ => nofun) (fun _ _ => nofun) s.cells true v

theorem plain (v : Value) : P String (Run.plain v) :=
  h.ask fun s => Value.text_fails (F := Fault.IsOwn) (fun _ _ => nofun) (fun _ _ => nofun) s.cells false v

theorem inspected (v : Value) : P String (Run.inspected v) :=
  h.ask fun s => Value.inspect_fails (F := Fault.IsOwn) (fun _ _ => nofun) (fun _ _ => nofun) s.cells v

theorem failShowing (v : Value) (cause : String → KindFault) : P α (Run.failShowing v cause) :=
  h.bind (h.shown v) fun _ => h.failKind _

theorem failInspecting (v : Value) (cause : String → KindFault) : P α (Run.failInspecting v cause) :=
  h.bind (h.inspected v) fun _ => h.failKind _

theorem content (id : CellId) : P Value (Run.content id) := h.look fun s => ⟨_, h.pure (s.content id), rfl⟩

theorem tryReadFile (path : Path) : P (Except FileFault String) (Run.tryReadFile path) := by
  refine h.look fun s => ?_
  unfold Run.tryReadFile
  cases s.files.lookup? path with
  | none => exact ⟨_, h.halt _, rfl⟩
  | some answer =>
    cases answer with
    | ok text => exact ⟨_, h.pure _, rfl⟩
    | error cause => exact ⟨_, h.pure _, rfl⟩

theorem readFile (path : Path) : P String (Run.readFile path) := by
  refine h.bind (h.tryReadFile path) fun answer => ?_
  cases answer with
  | ok text => exact h.pure _
  | error cause => exact h.fail fun _ _ => nofun

/-! ## What is demanded of arguments -/

theorem exactlyOne (name : String) (args : List Value) : P Value (Run.exactlyOne name args) := by
  unfold Run.exactlyOne
  split
  · exact h.pure _
  · exact h.failArity _
  · exact h.failArity _

theorem exactlyTwo (name : String) (args : List Value) : P (Value × Value) (Run.exactlyTwo name args) := by
  unfold Run.exactlyTwo
  split
  · exact h.pure _
  · exact h.failArity _
  · exact h.failArity _

theorem oneOrMore (name : String) (args : List Value) : P (Value × List Value) (Run.oneOrMore name args) := by
  unfold Run.oneOrMore
  split
  · exact h.pure _
  · exact h.failArity _

theorem twoOrMore (name : String) (args : List Value) :
    P (Value × Value × List Value) (Run.twoOrMore name args) := by
  unfold Run.twoOrMore
  split
  · exact h.pure _
  · exact h.failArity _

theorem sequence (name : String) (v : Value) : P (List Value) (Run.sequence name v) := by
  unfold Run.sequence
  split
  · exact h.pure _
  · split
    · exact h.pure _
    · exact h.failShowing _ _

theorem entries (name : String) (v : Value) : P Entries (Run.entries name v) := by
  unfold Run.entries
  split
  · exact h.pure _
  · exact h.pure _
  · exact h.failShowing _ _

theorem numbers (name : String) : ∀ vs : List Value, P (List Number) (Run.numbers name vs)
  | [] => h.pure _
  | v :: vs => by
    unfold Run.numbers
    split
    · exact h.bind (numbers name vs) fun _ => h.pure _
    · exact h.failShowing _ _

theorem requireCell (name : String) (v : Value) : P CellId (Run.requireCell name v) := by
  unfold Run.requireCell
  split
  · exact h.pure _
  · exact h.failShowing _ _

theorem requireKey (name : String) (key : Value) : P Unit (Run.requireKey name key) := by
  unfold Run.requireKey
  split
  · exact h.failKind _
  · split
    · exact h.pure _
    · exact h.failShowing _ _

/-! ## Parameters -/

theorem symbolNames : ∀ forms : List Value, P (List String) (Parameters.symbolNames forms)
  | [] => h.pure _
  | form :: forms => by
    cases form with
    | symbol name => exact h.bind (symbolNames forms) fun _ => h.pure _
    | _ => exact h.failInspecting _ _

theorem parametersOfForms (forms : List Value) : P Parameters (Parameters.ofForms forms) := by
  refine h.bind (h.symbolNames forms) fun names => ?_
  split
  · exact h.pure _
  · exact h.failKind _

theorem parameterLabel (form : Value) : P String (SmallLisp.parameterLabel form) := by
  unfold SmallLisp.parameterLabel
  split
  · exact h.pure _
  · exact h.pure _
  · exact h.pure _
  · exact h.inspected _

theorem bindForm (bindings : Bindings) (name value : Value) : P Bindings (bindings.bindForm name value) := by
  unfold Bindings.bindForm
  split
  · exact h.pure _
  · exact h.failInspecting _ _

theorem bindForms (bindings : Bindings) (forms args : List Value) :
    P Bindings (SmallLisp.bindForms bindings forms args) := by
  induction forms generalizing bindings args with
  | nil =>
    cases args with
    | nil => exact h.pure _
    | cons => exact h.bind (h.mapM h.inspected _) fun _ => h.failArity _
  | cons form forms ih =>
    unfold SmallLisp.bindForms
    split
    · split
      · exact h.fail fun _ _ => nofun
      · exact h.bindForm _ _ _
    · split
      · exact h.bind (h.mapM h.parameterLabel _) fun _ => h.failArity _
      · exact h.bind (h.bindForm _ _ _) fun bindings => ih bindings _

end ClosedBesideFrames

end SmallLisp.Run
