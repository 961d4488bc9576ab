/-
Growth of the store of frames. Frames are only added, each inside of another one; a frame stays inside of the
one that it was made in, and a name that it binds stays bound (`State.GrowsTo`). `Run.Before` compares a run
with one that goes further: the first comes to the same end, or it halts in a state from which the second
goes on, and whatever happens, the store only grows.
-/
import SmallLisp.Proofs.Run.Compositional
import SmallLisp.Proofs.Run.Invariant

namespace SmallLisp

/-! ## Stores that grow -/

/-- What may become of a frame. -/
structure Frame.GrowsTo (a b : Frame) : Prop where
  outer_eq : b.outer = a.outer
  bound : ∀ name, (a.bindings.find? name).isSome → (b.bindings.find? name).isSome

/-- What may become of the frames of a state. -/
structure State.GrowsTo (s t : State) : Prop where
  kept : ∀ (id : FrameId) (frame : Frame), s.frames[id]? = some frame →
    ∃ frame', t.frames[id]? = some frame' ∧ frame.GrowsTo frame'
  /-- A frame that was added is inside of another. -/
  added : ∀ (id : FrameId) (frame : Frame), t.frames[id]? = some frame → s.frames.size ≤ id → frame.outer.isSome

theorem Frame.GrowsTo.refl (a : Frame) : a.GrowsTo a := ⟨rfl, fun _ h => h⟩

theorem Frame.GrowsTo.trans {a b c : Frame} (hab : a.GrowsTo b) (hbc : b.GrowsTo c) : a.GrowsTo c :=
  ⟨hbc.outer_eq.trans hab.outer_eq, fun name h => hbc.bound name (hab.bound name h)⟩

theorem Bindings.isSome_find?_bind (name bound : String) (value : Value) {bindings : Bindings}
    (h : (bindings.find? name).isSome) : ((Bindings.bind bound value bindings).find? name).isSome := by
  induction bindings with
  | nil => cases h
  | cons binding bindings ih =>
    obtain ⟨first, v⟩ := binding
    rw [Bindings.find?] at h
    rw [Bindings.bind]
    split at h <;> split <;> rw [Bindings.find?]
    · rw [if_pos ‹_›]; rfl
    · rw [if_pos ‹_›]; rfl
    · rw [if_neg ‹_›]; exact h
    · rw [if_neg ‹_›]; exact ih h

namespace State.GrowsTo

variable {s t u : State}

theorem of_frames_eq (h : t.frames = s.frames) : s.GrowsTo t where
  kept id frame hframe := ⟨frame, h ▸ hframe, .refl frame⟩
  added id frame hframe hid := by
    rw [h, Array.getElem?_eq_none hid] at hframe
    cases hframe

theorem refl (s : State) : s.GrowsTo s := of_frames_eq rfl

theorem trans (hst : s.GrowsTo t) (htu : t.GrowsTo u) : s.GrowsTo u where
  kept id frame hframe := by
    obtain ⟨frame', hframe', hgrown⟩ := hst.kept id frame hframe
    obtain ⟨frame'', hframe'', hgrown'⟩ := htu.kept id frame' hframe'
    exact ⟨frame'', hframe'', hgrown.trans hgrown'⟩
  added id frame hframe hid := by
    by_cases hnew : t.frames.size ≤ id
    · exact htu.added id frame hframe hnew
    · -- the frame came in between, and is inside of the same one still
      have hold := Array.getElem?_eq_getElem (Nat.lt_of_not_le hnew)
      obtain ⟨frame', hframe', hgrown⟩ := htu.kept id _ hold
      obtain rfl := Option.some.inj (hframe'.symm.trans hframe)
      rw [hgrown.outer_eq]
      exact hst.added id _ hold hid

theorem addFrame (s : State) (outer : FrameId) (bindings : Bindings) :
    s.GrowsTo (s.addFrame ⟨some outer, bindings⟩) where
  kept id frame hframe := by
    refine ⟨frame, ?_, .refl frame⟩
    have hid : id ≠ s.frames.size := by
      rintro rfl
      rw [Array.getElem?_eq_none (Nat.le_refl _)] at hframe
      cases hframe
    rw [State.addFrame, Array.getElem?_push, if_neg hid, hframe]
  added id frame hframe hid := by
    rw [State.addFrame, Array.getElem?_push] at hframe
    split at hframe
    · cases hframe
      rfl
    · rw [Array.getElem?_eq_none hid] at hframe
      cases hframe

theorem define (s : State) (id : FrameId) (name : String) (value : Value) : s.GrowsTo (s.define id name value) where
  kept i frame hframe := by
    show ∃ frame', (s.frames.modify id _)[i]? = some frame' ∧ _
    rw [Array.getElem?_modify, hframe]
    split
    · exact ⟨_, rfl, rfl, fun bound => Bindings.isSome_find?_bind bound name value⟩
    · exact ⟨frame, rfl, .refl frame⟩
  added i frame hframe hi := by
    have hsize : (s.define id name value).frames.size = s.frames.size := Array.size_modify ..
    rw [Array.getElem?_eq_none (hsize.symm ▸ hi)] at hframe
    cases hframe

end State.GrowsTo

/-! ## Runs that go further -/

namespace Run

variable {α β : Type}

/-- From every state the second run makes the store grow, and the first comes to the same end, or it halts for
want of steps in a state that grows to where the second comes. -/
def Before (x y : Run α) : Prop :=
  ∀ s, s.GrowsTo (y s).state ∧ (x s = y s ∨ ∃ s', x s = .halted .steps s' ∧ s'.GrowsTo (y s).state)

/-- The run, or a halt where a test of states says so, before it or after it. -/
def haltWhere (stop : State → Bool) (x : Run α) : Run α := fun s =>
  if stop s then .halted .steps s else if stop (x s).state then .halted .steps (x s).state else x s

theorem haltWhere_false (x : Run α) : haltWhere (fun _ => false) x = x := rfl

namespace Before

theorem of_leavesFrames {x : Run α} (h : x.LeavesFrames) : x.Before x := fun s => ⟨.of_frames_eq (h s), .inl rfl⟩

/-- What comes of the second run has grown from the state at its start. -/
theorem right {x y : Run α} (h : x.Before y) : y.Before y := fun s => ⟨(h s).1, .inl rfl⟩

theorem halt {y : Run α} (h : y.Before y) : (Run.halt .steps : Run α).Before y :=
  fun s => ⟨(h s).1, .inr ⟨s, rfl, (h s).1⟩⟩

theorem pure (a : α) : Before (Pure.pure a) (Pure.pure a : Run α) := fun s => ⟨.refl s, .inl rfl⟩

theorem newFrame (outer : FrameId) (bindings : Bindings) :
    (Run.newFrame (some outer) bindings).Before (Run.newFrame (some outer) bindings) :=
  fun s => ⟨.addFrame s outer bindings, .inl rfl⟩

theorem define (frame : FrameId) (name : String) (value : Value) :
    (Run.define frame name value).Before (Run.define frame name value) :=
  fun s => ⟨.define s frame name value, .inl rfl⟩

theorem bind {x y : Run α} {f g : α → Run β} (h : x.Before y) (hf : ∀ a, (f a).Before (g a)) :
    (x >>= f).Before (y >>= g) := by
  intro s
  obtain ⟨hgrows, hxy⟩ := h s
  have hrest : (y s).state.GrowsTo ((y >>= g) s).state := by
    rw [bind_apply]
    cases y s with
    | value a s' => exact (hf a s').1
    | fault | halted => exact .refl _
  refine ⟨hgrows.trans hrest, ?_⟩
  rcases hxy with hxy | ⟨s', hx, hs'⟩
  · rw [bind_apply, bind_apply, hxy]
    cases y s with
    | value a s' => exact (hf a s').2
    | fault | halted => exact .inl rfl
  · refine .inr ⟨s', ?_, hs'.trans hrest⟩
    rw [bind_apply, hx]

theorem handle {x y : Run α} {f g : Fault → Run α} (h : x.Before y) (hf : ∀ fault, (f fault).Before (g fault)) :
    (x.handle f).Before (y.handle g) := by
  intro s
  obtain ⟨hgrows, hxy⟩ := h s
  have hrest : (y s).state.GrowsTo (y.handle g s).state := by
    unfold Run.handle
    cases y s with
    | fault fault s' => exact (hf fault s').1
    | value | halted => exact .refl _
  refine ⟨hgrows.trans hrest, ?_⟩
  rcases hxy with hxy | ⟨s', hx, hs'⟩
  · unfold Run.handle
    rw [hxy]
    cases y s with
    | fault fault s' => exact (hf fault s').2
    | value | halted => exact .inl rfl
  · refine .inr ⟨s', ?_, hs'.trans hrest⟩
    unfold Run.handle
    rw [hx]

/-- A run that is stopped in more states is before one that is stopped in fewer. -/
theorem haltWhere {x y : Run α} (h : x.Before y) {stop stop' : State → Bool} (hstop : ∀ s, stop' s → stop s) :
    (x.haltWhere stop).Before (y.haltWhere stop') := by
  intro s
  obtain ⟨hgrows, hxy⟩ := h s
  have hstate : s.GrowsTo (y.haltWhere stop' s).state := by
    unfold Run.haltWhere
    split
    · exact .refl s
    · split <;> exact hgrows
  refine ⟨hstate, ?_⟩
  by_cases hs : stop s
  · exact .inr ⟨s, if_pos hs, hstate⟩
  · have hs' : ¬ stop' s := fun h => hs (hstop s h)
    have hend : (y.haltWhere stop' s).state = (y s).state := by
      unfold Run.haltWhere
      rw [if_neg hs']
      split <;> rfl
    rw [hend]
    rcases hxy with hxy | ⟨s', hx, hs'grows⟩
    · by_cases hlast : stop (y s).state
      · refine .inr ⟨(y s).state, ?_, .refl _⟩
        rw [Run.haltWhere, if_neg hs, hxy, if_pos hlast]
      · refine .inl ?_
        rw [Run.haltWhere, Run.haltWhere, if_neg hs, if_neg hs', hxy, if_neg hlast, if_neg fun h => hlast (hstop _ h)]
    · refine .inr ⟨s', ?_, hs'grows⟩
      rw [Run.haltWhere, if_neg hs, hx]
      exact ite_self _

end Before

/-! ## What is composed of runs that go further -/

/-- A run is before itself if it only makes the store grow; those that touch no frame do. -/
theorem before_continuing : Continuing fun _ x y => x.Before y where
  self := {
    pure := fun a => .pure a
    halt := fun need => .of_leavesFrames (leavesFrames_closed.halt need)
    fail := fun hown => .of_leavesFrames (leavesFrames_closed.fail hown)
    throw := fun v => .of_leavesFrames (leavesFrames_closed.throw v)
    bind := fun hx hf => .bind hx hf
    look := fun {_ x} hlook s => by
      obtain ⟨y, hy, heq⟩ := hlook s
      rw [heq]
      exact ⟨(hy s).1, .inl rfl⟩
    newCell := fun content => .of_leavesFrames (leavesFrames_closed.newCell content)
    setContent := fun id content => .of_leavesFrames (leavesFrames_closed.setContent id content)
    print := fun text => .of_leavesFrames (leavesFrames_closed.print text)
    nextLine := .of_leavesFrames leavesFrames_closed.nextLine
    readClock := .of_leavesFrames leavesFrames_closed.readClock }
  right hxy := hxy.right
  halt hy := .halt hy
  bind hxy hfg := .bind hxy hfg
  look hlook s := by
    obtain ⟨x', y', hbefore, hx, hy⟩ := hlook s
    rw [hx, hy]
    exact hbefore s
  handle hxy hfg := .handle hxy hfg
  newFrame := .newFrame
  define := .define

end Run

end SmallLisp
