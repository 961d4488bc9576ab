/-
The frames of a session. In every state that a session comes past, in the middle of an evaluation as well,
the frames are a tree that has grown from the root frame, and all functions belong to frames of it
(`visited_chained`). So every walk outward ends at the root frame, and a name that stands for something goes
on to.
-/
import SmallLisp.Proofs.Evaluation.Chains
import SmallLisp.Proofs.Run.Chains
import SmallLisp.Proofs.Run.Pairs
import SmallLisp.Proofs.Session.Reachable

namespace SmallLisp

open Run (Keeps)
open Likeness (inStore)

/-! ## Interrupted evaluations -/

theorem Run.RelatesFrom.haltWhere {α β : Type} {R : Nat → State → State → Prop} {F : Nat → Fault → Fault → Prop}
    {n : Nat} {x : Run α} {y : Run β} {Q : Nat → α → β → Prop} (h : RelatesFrom R F n x y Q)
    {stop stop' : State → Bool} (hstop : ∀ m ≥ n, ∀ s t, R m s t → stop s = stop' t) :
    RelatesFrom R F n (x.haltWhere stop) (y.haltWhere stop') Q := by
  intro s t hst
  unfold Run.haltWhere
  rw [← hstop n (Nat.le_refl n) s t hst]
  split
  · exact ⟨n, Nat.le_refl n, .halted .steps hst⟩
  · obtain ⟨m, hnm, hends⟩ := h s t hst
    rw [← hstop m hnm _ _ hends.state]
    split
    · exact ⟨m, hnm, .halted .steps hends.state⟩
    · exact ⟨m, hnm, hends⟩

/-- Wherever they are interrupted, evaluations keep to the frames of the store. Tests that differ only for forms or
frames that are not in the store interrupt an evaluation alike. -/
theorem evaluateUpTo_inStore {stop stop' : Value → FrameId → State → Bool}
    (hstop : ∀ form frame s, form.FramesBelow s.frames.size → frame < s.frames.size →
      stop form frame s = stop' form frame s) :
    ∀ steps : Nat, inStore.EvaluatorsAlike (evaluateUpTo stop steps) (evaluateUpTo stop' steps)
  | 0, _, _, _, _, _, _ => .halt _ _
  | steps + 1, n, form, form', frame, hform, hframe => by
    have h : inStore.judgement.Evaluates (evaluateUpTo stop steps) (evaluateUpTo stop' steps) :=
      evaluateUpTo_inStore hstop steps
    obtain rfl := hform.eq
    have hreduce := Judgement.reduceWith_holds h (Judgement.evalPlain_holds h) (Likeness.primitives_run h)
      steps hform hframe
    refine Run.RelatesFrom.haltWhere (.bind hreduce fun _ _ _ _ hstep => Judgement.finish_holds h hstep)
      fun m hnm s t hst => ?_
    obtain rfl := hst.eq
    have hsize : s.frames.size = m := hst.size_left
    exact hstop form frame s (hsize ▸ (hform.mono hnm).framesBelow) (hsize ▸ Nat.lt_of_lt_of_le hframe hnm)

theorem Outcome.Rel.eq_of_inStore {m : Nat} {o o' : Outcome Value}
    (h : Outcome.Rel (inStore.StatesAlike m) (inStore.FaultAlike m) (inStore.Alike m) o o') : o = o' := by
  cases h with
  | value hv hst => rw [hv.eq, hst.eq]
  | fault hf hst =>
    cases hf with
    | thrown shown hv => rw [hv.eq, hst.eq]
    | own => rw [hst.eq]
  | halted need hst => rw [hst.eq]

/-- Whether the functions of what an evaluation came to belong to frames of the state that it led to. -/
def Outcome.FramesBelow : Outcome Value → Prop
  | .value v s => v.FramesBelow s.frames.size
  | .fault f s => f.caught.FramesBelow s.frames.size
  | .halted .. => True

namespace Session

/-! ## States that a session comes past -/

/-- The states that a session comes past. They are the initial one, those in which an evaluation begins or ends, of
a form that a text writes or of one within it, and what becomes of these between two forms, when the outside
does something. -/
inductive Visited : State → Prop where
  | initial (arguments : List String) (files : Files) (input : String) (inputEnded : Bool) (clock : Nat) :
    Visited (State.initial arguments files input inputEnded clock)
  | evaluation {s : State} {text : String} {form : Value} (stop : Value → FrameId → State → Bool) (steps : Nat) :
    Visited s → form ∈ (Source.readAll text).forms → Visited (evaluateUpTo stop steps form rootFrame s).state
  | outside {s s' : State} : Visited s → s'.frames = s.frames → s'.cells = s.cells → Visited s'

/-- What comes later: where an evaluation is, compared with where it was when it had been interrupted earlier or had
fewer steps, or before it began; and what the outside makes of a state. -/
inductive Later : State → State → Prop where
  | onward {stop stop' : Value → FrameId → State → Bool} {steps steps' : Nat} (form : Value) (frame : FrameId)
    (s : State) :
    (∀ form frame s, stop' form frame s → stop form frame s) → steps ≤ steps' →
    Later (evaluateUpTo stop steps form frame s).state (evaluateUpTo stop' steps' form frame s).state
  | outside {s s' : State} : s'.frames = s.frames → Later s s'
  | trans {s t u : State} : Later s t → Later t u → Later s u

theorem Later.refl (s : State) : Later s s := .outside rfl

/-- An evaluation leads to later states. -/
theorem later_evaluate (steps : Nat) (form : Value) (frame : FrameId) (s : State) :
    Later s (evaluate steps form frame s).state := by
  -- without any steps, an evaluation is where it began
  have honward : Later (evaluateUpTo (fun _ _ _ => false) 0 form frame s).state
      (evaluateUpTo (fun _ _ _ => false) steps form frame s).state := .onward form frame s nofun (Nat.zero_le steps)
  rwa [evaluateUpTo_never, evaluateUpTo_never] at honward

theorem Visited.evaluate {s : State} (h : Visited s) (steps : Nat) {text : String} {form : Value}
    (hform : form ∈ (Source.readAll text).forms) : Visited (evaluate steps form rootFrame s).state :=
  evaluateUpTo_never steps ▸ h.evaluation (fun _ _ _ => false) steps hform

/-! ## Texts -/

section Texts

variable {I : State → Prop} (steps : Nat)
  (hI : ∀ text, ∀ form ∈ (Source.readAll text).forms, ∀ s, I s → I (SmallLisp.evaluate steps form rootFrame s).state)

theorem ask_keeps {α : Type} (f : State → Except Fault α) : Keeps I (Run.ask f) fun _ => True := by
  intro s hs
  unfold Run.ask
  split <;> exact ⟨hs, fun _ _ _ => trivial⟩

theorem tryReadFile_keeps (path : Path) : Keeps I (Run.tryReadFile path) fun _ => True := by
  intro s hs
  unfold Run.tryReadFile
  split <;> exact ⟨hs, fun _ _ _ => trivial⟩

include hI

theorem foldText_keeps {α : Type} {f : α → Value → Run α} (hf : ∀ result value, Keeps I (f result value) fun _ => True)
    (start : α) (text : String) : Keeps I (foldText steps f start text) fun _ => True := by
  have hforms : ∀ forms : List Value, (∀ form ∈ forms, form ∈ (Source.readAll text).forms) → ∀ result,
      Keeps I (foldForms steps f result forms) fun _ => True := by
    intro forms
    induction forms with
    | nil => exact fun _ _ => .pure trivial
    | cons form forms ih =>
      intro hmem result
      obtain ⟨hform, hrest⟩ := List.forall_mem_cons.1 hmem
      exact .bind (P := fun _ => True) (fun s hs => ⟨hI text form hform s hs, fun _ _ _ => trivial⟩) fun value _ =>
        .bind (hf result value) fun _ _ => ih hrest _
  refine .bind (hforms _ (fun _ h => h) start) fun result _ => ?_
  split
  · exact .pure trivial
  · exact .fail _ _

theorem eval_keeps (text : String) : Keeps I (Session.eval steps text) fun _ => True :=
  foldText_keeps steps hI (f := fun _ value => pure value) (fun _ _ => .pure trivial) .nil text

theorem rep_keeps (text : String) : Keeps I (Session.rep steps text) fun _ => True :=
  foldText_keeps steps hI (f := fun _ value => do return some (← Run.shown value))
    (fun _ _ => .bind (ask_keeps _) fun _ _ => .pure trivial) none text

theorem loadPrelude_keeps (settings : Settings) : Keeps I (loadPrelude steps settings) fun _ => True := by
  have hdirectory : Keeps I settings.preludeDirectory? fun _ => True := by
    unfold Settings.preludeDirectory?
    split
    · exact .pure trivial
    · refine .bind (P := fun _ => True) (.bind (tryReadFile_keeps _) fun answer _ => ?_) fun _ _ => .pure trivial
      split
      · exact .pure trivial
      · exact .fail _ _
      · exact .pure trivial
  unfold loadPrelude
  generalize standardPrelude = prelude
  refine .bind hdirectory fun directory? _ => ?_
  split
  · exact .bind (eval_keeps steps hI prelude) fun _ _ => .pure trivial
  · refine .bind (tryReadFile_keeps _) fun answer _ => ?_
    split
    · exact .bind (eval_keeps steps hI _) fun _ _ => .pure trivial
    · exact .fail _ _
    · exact .fail _ _

theorem start_keeps (settings : Settings) (choice : PreludeChoice) :
    Keeps I (Session.start steps settings choice) fun _ => True := by
  unfold Session.start
  split
  · exact .pure trivial
  · exact .bind (eval_keeps steps hI _) fun _ _ => .pure trivial
  · refine .handle (.bind (loadPrelude_keeps steps hI settings) fun _ _ => .pure trivial) fun fault => ?_
    split
    · exact .pure trivial
    · exact .fail _ _

end Texts

/-- The states that a session reaches are among those that it comes past. -/
theorem Reachable.visited {s : State} (h : Reachable s) : Visited s := by
  have hI : ∀ steps text, ∀ form ∈ (Source.readAll text).forms, ∀ s, Visited s →
      Visited (SmallLisp.evaluate steps form rootFrame s).state := fun steps _ _ hform _ h => h.evaluate steps hform
  induction h with
  | initial arguments files input inputEnded clock => exact .initial arguments files input inputEnded clock
  | start steps settings choice _ ih => exact (start_keeps steps (hI steps) settings choice _ ih).1
  | eval steps text _ ih => exact (eval_keeps steps (hI steps) text _ ih).1
  | rep steps text _ ih => exact (rep_keeps steps (hI steps) text _ ih).1
  | outside _ hframes hcells ih => exact ih.outside hframes hcells

/-! ## The tree of frames -/

theorem initial_inStore (arguments : List String) (files : Files) (input : String) (inputEnded : Bool) (clock : Nat) :
    inStore.StatesAlike 1 (State.initial arguments files input inputEnded clock)
      (State.initial arguments files input inputEnded clock) where
  size_left := rfl
  size_right := rfl
  root := Nat.one_pos
  cells := ⟨rfl, fun _ => .nil⟩
  outside := rfl
  frames id := by
    cases id with
    | succ id => exact .none
    | zero =>
      refine .some ⟨rfl, nofun, List.forall₂_same.2 fun binding hb => ⟨rfl, ?_⟩⟩
      rcases List.mem_append.1 hb with hb | hb
      · obtain ⟨p, _, rfl⟩ := List.mem_map.1 hb
        exact .primitive false trivial fun _ => .nil
      · cases List.mem_singleton.1 hb
        refine Likeness.alike_ofList (List.forall₂_same.2 fun v hv => ?_)
        obtain ⟨argument, _, rfl⟩ := List.mem_map.1 hv
        exact .str argument

theorem Visited.inStore {s : State} (h : Visited s) : inStore.StatesAlike s.frames.size s s := by
  induction h with
  | initial arguments files input inputEnded clock => exact initial_inStore arguments files input inputEnded clock
  | @evaluation s text form stop steps _ hform ih =>
    have hsame : Likeness.inStore.Alike s.frames.size form form := Likeness.alike_holdsOfForms.readAll text form hform
    obtain ⟨m, _, hends⟩ := evaluateUpTo_inStore (fun _ _ _ _ _ => rfl) steps s.frames.size hsame ih.root s s ih
    obtain rfl := hends.state.size_left
    exact hends.state
  | outside _ hframes hcells ih => exact hframes ▸ ih.of_outside ⟨hframes, hcells⟩ ⟨hframes, hcells⟩ rfl

/-- A later state has grown from an earlier one. -/
theorem Later.growsTo {s t : State} (h : Later s t) : s.GrowsTo t := by
  induction h with
  | onward form frame s hstop hsteps =>
    obtain ⟨_, hsame | ⟨s', hhalted, hgrows⟩⟩ := evaluateUpTo_before hstop hsteps form frame s
    · rw [hsame]
      exact .refl _
    · rw [hhalted]
      exact hgrows
  | outside h => exact .of_frames_eq h
  | trans _ _ ih ih' => exact ih.trans ih'

/-- The store of frames has grown from a root frame alone. -/
theorem Visited.grown {s : State} (h : Visited s) : ∃ first : State, first.frames.size = 1 ∧
    (∃ bindings, first.frames[rootFrame]? = some ⟨none, bindings⟩) ∧ first.GrowsTo s := by
  induction h with
  | initial arguments files input inputEnded clock =>
    exact ⟨State.initial arguments files input inputEnded clock, rfl, ⟨_, rfl⟩, .refl _⟩
  | @evaluation s text form stop steps _ _ ih =>
    obtain ⟨first, hsize, hroot, hgrows⟩ := ih
    have hstop : ∀ form frame s, stop form frame s → stop form frame s := fun _ _ _ h => h
    obtain ⟨hnext, -⟩ := evaluateUpTo_before hstop (Nat.le_refl steps) form rootFrame s
    exact ⟨first, hsize, hroot, hgrows.trans hnext⟩
  | outside _ hframes _ ih =>
    obtain ⟨first, hsize, hroot, hgrows⟩ := ih
    exact ⟨first, hsize, hroot, hgrows.trans (.of_frames_eq hframes)⟩

theorem Visited.chained {s : State} (h : Visited s) : s.Chained where
  root := by
    obtain ⟨first, _, ⟨_, hroot⟩, hgrows⟩ := h.grown
    obtain ⟨⟨outer, bindings⟩, hframe, hgrown⟩ := hgrows.kept rootFrame _ hroot
    obtain rfl : outer = none := hgrown.outer_eq
    exact ⟨bindings, hframe⟩
  outer id frame hframe hid := by
    obtain ⟨first, hsize, _, hgrows⟩ := h.grown
    have hadded := hgrows.added id frame hframe (hsize ▸ Nat.one_le_iff_ne_zero.2 hid)
    obtain ⟨outer, houter⟩ := Option.isSome_iff_exists.1 hadded
    exact ⟨outer, h.inStore.outer_lt hframe houter, houter⟩
  functions _ hv := h.inStore.framesBelow hv

/-- No evaluation, however deep inside of another, is one of a form or in a frame out of the store: an interruption that
waits for one does not happen. -/
theorem Visited.evaluateUpTo_eq {s : State} (h : Visited s) {stop : Value → FrameId → State → Bool}
    (hstop : ∀ form frame t, stop form frame t → ¬ (form.FramesBelow t.frames.size ∧ frame < t.frames.size))
    {text : String} {form : Value} (hform : form ∈ (Source.readAll text).forms) (steps : Nat) :
    evaluateUpTo stop steps form rootFrame s = SmallLisp.evaluate steps form rootFrame s := by
  have hsame : Likeness.inStore.Alike s.frames.size form form := Likeness.alike_holdsOfForms.readAll text form hform
  have hnever : ∀ form frame (t : State), form.FramesBelow t.frames.size → frame < t.frames.size →
      stop form frame t = false := fun form frame t hf hframe =>
    Bool.eq_false_iff.2 fun h => hstop form frame t h ⟨hf, hframe⟩
  obtain ⟨m, _, hends⟩ := evaluateUpTo_inStore hnever steps s.frames.size hsame h.inStore.root s s h.inStore
  rw [evaluateUpTo_never] at hends
  exact hends.eq_of_inStore

/-- The chains of frames, in every state that a session comes past. The root frame is inside of no other, any other
frame was made after the one around it, and all functions belong to frames that there are; those in the value that
an evaluation comes to or that it throws as well, if those in its form did. So from every frame the way outward is
finite and ends at the root frame, and a name stands for what the first frame on the way binds it to. Later on, a
frame is inside of the same frame still and binds the names that it bound, and a name that stands for something
from some frame goes on to. -/
theorem visited_chained {s : State} (h : Visited s) :
    s.Chained ∧
    (∀ id < s.frames.size,
      s.Outward id (s.chain id) ∧ (s.chain id).getLast? = some rootFrame ∧ s.rootOf id = rootFrame) ∧
    (∀ id name, s.resolve? id name = (s.chain id).findSome? (s.bindingAt name)) ∧
    (∀ form frame, form.FramesBelow s.frames.size → frame < s.frames.size → ∀ steps,
      (SmallLisp.evaluate steps form frame s).FramesBelow) ∧
    ∀ t, Later s t → s.GrowsTo t ∧ ∀ id name, (s.resolve? id name).isSome → (t.resolve? id name).isSome := by
  refine ⟨h.chained, fun id hid => ?_, fun id name => s.resolve?_eq_findSome? id name, ?_, fun t ht => ?_⟩
  · obtain ⟨hout, hlast⟩ := h.chained.outward_chain hid
    exact ⟨hout, hlast, h.chained.rootOf_eq hid⟩
  · intro form frame hform hframe steps
    obtain ⟨m, _, hends⟩ := Likeness.evaluate_runsAlike steps s.frames.size (Likeness.alike_of_framesBelow hform)
      (hframe : inStore.refers _ frame) s s h.inStore
    obtain rfl := hends.state.size_left
    generalize SmallLisp.evaluate steps form frame s = o at hends
    cases hends with
    | value hv => exact hv.framesBelow
    | fault hf => exact hf.caught.framesBelow
    | halted => trivial
  · exact ⟨ht.growsTo, fun id name => ht.growsTo.resolves⟩

/-- A program that makes a function inside of a frame of its own. -/
def functionInside : String := "(def! f (let* (x 1) (fn* () x)))"

/-- The only form of `functionInside`. -/
def functionInsideForm : Value :=
  .ofList [.symbol "def!", .symbol "f",
    .ofList [.symbol "let*", .ofList [.symbol "x", .int 1], .ofList [.symbol "fn*", .ofList [], .symbol "x"]]]

theorem visited_chained_functionInside :
    let s := (SmallLisp.evaluate 4 functionInsideForm rootFrame (State.initial [] (.tree []) "" true 0)).state
    let t := (SmallLisp.evaluate 1 (.symbol "f") rootFrame s).state
    Visited s ∧ s.Outward 1 [1, rootFrame] ∧ s.rootOf 1 = rootFrame ∧ Later s t ∧ (t.resolve? 1 "x").isSome ∧
      ∃ v, s.get? rootFrame "f" = some v ∧ v.frame? = some 1 := by
  intro s t
  have hread : Source.readAll functionInside = ⟨[functionInsideForm], none, []⟩ := by rfl
  have hform : functionInsideForm ∈ (Source.readAll functionInside).forms := by
    rw [hread]
    exact List.mem_singleton_self _
  have hvisited : Visited s := (Visited.initial [] (.tree []) "" true 0).evaluate 4 hform
  obtain ⟨-, houtward, -, -, hlater⟩ := visited_chained hvisited
  obtain ⟨hout, -, hroot⟩ := houtward 1 (by decide)
  have ht : Later s t := later_evaluate 1 _ rootFrame s
  exact ⟨hvisited, hout, hroot, ht, (hlater t ht).2 1 "x" rfl, _, rfl, rfl⟩

end Session

end SmallLisp
