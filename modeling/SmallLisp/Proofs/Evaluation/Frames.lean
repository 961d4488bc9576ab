/-
Which frames an evaluation can change: the one it takes place in, those that it adds, and the root
frame, which only the primitive `eval` reaches. That runs keep all others is a judgement (`keeping`).
Main statement: `evaluate_frames`.
-/
import SmallLisp.Proofs.Evaluation.Compositional
import SmallLisp.Proofs.Run.Invariant
import SmallLisp.Session

namespace SmallLisp

open Run (Below ClosedBesideFrames Keeps keeps_closed)

/-! ## The invariant -/

/-- Since there were the frames `old`, frames have only been added, and only writable ones of the
old frames have changed. -/
structure Intact (old : Array Frame) (writable : FrameId → Prop) (s : State) : Prop where
  grown : old.size ≤ s.frames.size
  kept : ∀ id < old.size, ¬writable id → s.frames[id]? = old[id]?

/-- The frames that may change: new ones, and old ones that are writable. -/
def Free (old : Array Frame) (writable : FrameId → Prop) (id : FrameId) : Prop := old.size ≤ id ∨ writable id

variable {old : Array Frame} {writable : FrameId → Prop}

theorem intact_refl (s : State) : Intact s.frames writable s := ⟨Nat.le_refl _, fun _ _ _ => rfl⟩

theorem Intact.of_frames_eq (s s' : State) (h : s'.frames = s.frames) (hs : Intact old writable s) :
    Intact old writable s' :=
  ⟨h ▸ hs.grown, fun id hid hw => h ▸ hs.kept id hid hw⟩

/-- Old frames are kept by whatever is made of runs that keep them, beside frames. -/
theorem intact_closed : ClosedBesideFrames fun _ x => Keeps (Intact old writable) x fun _ => True :=
  keeps_closed Intact.of_frames_eq

/-- A new frame is free. -/
theorem newFrame_keeps (outer : Option FrameId) (bindings : Bindings) :
    Keeps (Intact old writable) (Run.newFrame outer bindings) (Free old writable) := by
  intro s hs
  refine ⟨⟨?_, fun id hid hw => ?_⟩, fun id s' h => ?_⟩
  · show old.size ≤ (s.frames.push _).size
    rw [Array.size_push]
    exact Nat.le_succ_of_le hs.grown
  · show (s.frames.push _)[id]? = _
    rw [Array.getElem?_push, if_neg (by have := hs.grown; omega)]
    exact hs.kept id hid hw
  · cases h
    exact Or.inl hs.grown

/-- Names are bound in free frames only. -/
theorem define_keeps {frame : FrameId} (hf : Free old writable frame) (name : String) (value : Value) :
    Keeps (Intact old writable) (Run.define frame name value) fun _ => True := by
  intro s hs
  refine ⟨⟨?_, fun id hid hw => ?_⟩, fun _ _ _ => trivial⟩
  · show old.size ≤ (s.frames.modify frame _).size
    rw [Array.size_modify]
    exact hs.grown
  · -- an old frame that is not writable is not the one that is written
    have hne : frame ≠ id := by
      rintro rfl
      exact hf.elim (fun h => absurd hid (Nat.not_lt.2 h)) hw
    show (s.frames.modify frame _)[id]? = _
    rw [Array.getElem?_modify, if_neg hne]
    exact hs.kept id hid hw

/-! ## The judgement -/

/-- The first of two runs keeps old frames. Evaluations are in frames that may change. -/
def keeping (old : Array Frame) (writable : FrameId → Prop) : Judgement where
  toAgreement := .same
  Holds n x _ Q := Keeps (Intact old writable) x fun a => ∃ b, Q n a b
  within _ := Free old writable
  bound _ _ _ := True
  within_mono _ h := h
  refers_of_within _ := trivial
  bound_nil := trivial
  bound_single _ _ _ _ := trivial
  pure h := .pure ⟨_, h⟩
  bind h hf := .bind h fun _ hrelated => hrelated.elim fun _ hab => hf _ (Nat.le_refl _) _ _ hab
  handle h hf := .handle h fun fault => hf _ (Nat.le_refl _) fault fault ⟨trivial, rfl⟩
  halt _ := .halt _ _
  failKind cause _ := .fail _ _
  failArity cause _ := .fail _ _
  failUnbound name _ := .fail _ _
  failInspecting cause _ _ := .bind (intact_closed.inspected _) fun _ _ => .fail _ _
  getting frame name s hs := by
    refine ⟨hs, fun found _ hfound => ⟨found, ?_⟩⟩
    cases found with
    | none => exact .none
    | some v => exact .some ⟨trivial, rfl⟩
  define name _ _ hf _ := (define_keeps hf name _).weaken fun _ _ => ⟨(), trivial⟩
  newFrame _ _ := (newFrame_keeps _ _).weaken fun frame hf => ⟨frame, rfl, hf⟩
  requireKey name v w h := (intact_closed.requireKey name v).weaken fun _ _ => ⟨(), ⟨trivial, trivial⟩, h.2⟩
  parameters _ := (intact_closed.parametersOfForms _).weaken fun params _ => ⟨params, rfl⟩
  arguments params _ _ _ := (intact_closed.bindForms _ _ _).weaken fun bindings _ => ⟨bindings, trivial⟩

/-! ## The evaluator -/

/-- The evaluator with its own way to evaluate anew, which is what the primitive `eval` does. -/
def evaluateAnew (anew : Evaluator → Evaluator) : (steps : Nat) → Evaluator :=
  evaluateWith evalPlain fun eval => Primitive.run (anew eval)

/-- An evaluation keeps all old frames but the one it takes place in, if evaluations anew keep them. -/
theorem evaluateAnew_keeps (anew : Evaluator → Evaluator)
    (hanew : ∀ steps, (∀ form frame, Free old writable frame →
        Keeps (Intact old writable) (evaluateAnew anew steps form frame) fun _ => True) →
      ∀ form, Keeps (Intact old writable) (anew (evaluateAnew anew steps) form rootFrame) fun _ => True)
    (steps : Nat) (form : Value) (frame : FrameId) (hf : Free old writable frame) :
    Keeps (Intact old writable) (evaluateAnew anew steps form frame) fun _ => True := by
  have hkeeps : ∀ {steps}, (keeping old writable).Evaluates (evaluateAnew anew steps) (evaluateAnew anew steps) →
      ∀ form frame, Free old writable frame →
        Keeps (Intact old writable) (evaluateAnew anew steps form frame) fun _ => True :=
    fun h form frame hf => (h 0 (Agreement.same_self 0 form) hf).weaken fun _ _ => trivial
  refine hkeeps ((keeping old writable).evaluateWith_holds Judgement.evalPlain_holds ?_ steps) form frame hf
  intro steps h call call' hc n p isMacro info info' args args' frame _ _
  have hcalls : ∀ function args frame, Keeps (Intact old writable) (call function args frame) fun _ => True :=
    fun function args frame => (hc 0 frame (Agreement.same_self 0 function) (Agreement.same_each 0 args)).weaken
      fun _ _ => trivial
  exact (intact_closed.primitive hcalls (hanew steps (hkeeps h)) p frame args).weaken fun v _ => ⟨v, trivial, rfl⟩

/-- An evaluation keeps all old frames but the one it takes place in and the root frame. -/
theorem evaluate_keeps (hroot : Free old writable rootFrame) (steps : Nat) (form : Value) (frame : FrameId)
    (hf : Free old writable frame) : Keeps (Intact old writable) (evaluate steps form frame) fun _ => True := by
  rw [← evaluateWith_eq_evaluate]
  exact evaluateAnew_keeps id (fun _ h form => h form rootFrame hroot) steps form frame hf

/-- If a way to evaluate anew comes to the same as the given one or halts for want of steps, the evaluator with it
does. -/
theorem evaluateAnew_below (anew : Evaluator → Evaluator)
    (hanew : ∀ {eval eval' : Evaluator}, (∀ form frame, (eval form frame).Below (eval' form frame)) →
      ∀ form, (anew eval form rootFrame).Below (eval' form rootFrame)) (n : Nat) (form : Value) (frame : FrameId) :
    (evaluateAnew anew n form frame).Below (evaluate n form frame) := by
  have h := Run.shortOf_compositional .steps
  rw [← evaluateWith_eq_evaluate]
  refine h.of_evaluates (h.judgement.evaluateWith_holds Judgement.evalPlain_holds (fun n he => ?_) n) form frame
  exact h.runs (hanew (h.of_evaluates he))

/-- The evaluator with the primitive `eval` sealed: a call of it halts the run for good. -/
def evaluateSealed : (steps : Nat) → Evaluator := evaluateAnew fun _ _ _ => Run.halt .steps

/-- Without `eval`, the root frame is kept like any other. -/
theorem evaluateSealed_keeps : ∀ (steps : Nat) (form : Value) (frame : FrameId),
    Free old writable frame → Keeps (Intact old writable) (evaluateSealed steps form frame) fun _ => True :=
  evaluateAnew_keeps _ fun _ _ _ => .halt _ _

/-- A run that ends with `eval` sealed is the run of the evaluator. -/
theorem evaluateSealed_below : ∀ (n : Nat) (form : Value) (frame : FrameId),
    (evaluateSealed n form frame).Below (evaluate n form frame) :=
  evaluateAnew_below _ fun _ _ => .halt _

/-- The run, but halting before it if a test says so of the states before and after it. -/
def Run.haltIf {α : Type} (test : State → State → Bool) (x : Run α) : Run α := fun s =>
  if test s (x s).state then .halted .steps s else x s

theorem Run.haltIf_below {α : Type} (test : State → State → Bool) {x y : Run α} (h : x.Below y) :
    (x.haltIf test).Below y := by
  intro s
  unfold haltIf
  split
  · exact .inr ⟨s, rfl⟩
  · exact h s

theorem Run.Keeps.haltIf {α : Type} {I : State → Prop} {x : Run α} (h : Keeps I x fun _ => True)
    (test : State → State → Bool) : Keeps I (x.haltIf test) fun _ => True := by
  intro s hs
  refine ⟨?_, fun _ _ _ => trivial⟩
  unfold Run.haltIf
  split
  · exact hs
  · exact (h s hs).1

/-- The evaluator with the primitive `eval` watched: a call of it halts the run for good if a test says so of the states
before and after the call. -/
def evaluateWatched (test : State → State → Bool) : (steps : Nat) → Evaluator :=
  evaluateAnew fun eval form frame => (eval form frame).haltIf test

/-- A run that ends with `eval` watched is the run of the evaluator. -/
theorem evaluateWatched_below (test : State → State → Bool) : ∀ (n : Nat) (form : Value) (frame : FrameId),
    (evaluateWatched test n form frame).Below (evaluate n form frame) :=
  evaluateAnew_below _ fun h form => Run.haltIf_below test (h form rootFrame)

/-- If every change of the root frame is noticed, it is kept like any other. -/
theorem evaluateWatched_keeps {test : State → State → Bool}
    (htest : ∀ s t, s.frames[rootFrame]? ≠ t.frames[rootFrame]? → test s t) :
    ∀ (steps : Nat) (form : Value) (frame : FrameId), Free old writable frame →
      Keeps (Intact old writable) (evaluateWatched test steps form frame) fun _ => True := by
  refine evaluateAnew_keeps _ fun steps _ form s hs => ⟨?_, fun _ _ _ => trivial⟩
  -- an evaluation anew keeps the frames beside the root frame in any case
  have hroot : Free old (fun id => writable id ∨ id = rootFrame) rootFrame := .inr (.inr rfl)
  have hothers := evaluateAnew_keeps (fun eval form frame => (eval form frame).haltIf test)
    (fun _ h form => (h form rootFrame hroot).haltIf test) steps form rootFrame hroot s
    ⟨hs.grown, fun id hid hw => hs.kept id hid fun h => hw (.inl h)⟩
  unfold Run.haltIf
  split
  · exact hs
  · next hunnoticed =>
    refine ⟨hothers.1.grown, fun id hid hw => ?_⟩
    by_cases hid' : id = rootFrame
    · subst hid'
      have hsame := not_imp_comm.1 (htest s _) hunnoticed
      rw [← hsame]
      exact hs.kept rootFrame hid hw
    · exact hothers.1.kept id hid (by rintro (h | h) <;> contradiction)

/-- An evaluator that is below the given one and keeps the root frame does not end where that frame changes. -/
theorem not_ended_of_root_changed {eval : Nat → Evaluator} {steps : Nat} {form : Value} {frame : FrameId} {s : State}
    (hbelow : ∀ n, (eval n form frame).Below (evaluate n form frame))
    (hkeeps : ∀ n, Keeps (Intact s.frames fun id => id = frame) (eval n form frame) fun _ => True)
    (hend : (evaluate steps form frame s).Ended) (hroot : rootFrame < s.frames.size) (hframe : frame ≠ rootFrame)
    (hchanged : (evaluate steps form frame s).state.frames[rootFrame]? ≠ s.frames[rootFrame]?) (n : Nat) :
    ¬(eval n form frame s).Ended := by
  refine fun hn => hchanged ?_
  have hkept := (hkeeps n s (intact_refl s)).1.kept rootFrame hroot (Ne.symm hframe)
  -- the run ended, so it is the run of the evaluator, which ends in one way only
  have heq : eval n form frame s = evaluate n form frame s := (hbelow n).eq_of_ended hn
  rw [heq] at hn hkept
  rw [evaluate_unique hend hn, hkept]

/-- However an evaluation ends, every frame that was there before is as it was, except the frame in
which it takes place and the root frame. If the root frame has changed, then the evaluation took
place there, or it called the primitive `eval`: with `eval` sealed it ends in no number of steps. It was such
a call that changed the root frame: if `eval` is watched, and all changes of the root frame are noticed, then it
ends in no number of steps either. -/
theorem evaluate_frames (steps : Nat) (form : Value) (frame : FrameId) (s : State) :
    (∀ id < s.frames.size, id ≠ frame → id ≠ rootFrame →
      (evaluate steps form frame s).state.frames[id]? = s.frames[id]?) ∧
    ((evaluate steps form frame s).Ended → rootFrame < s.frames.size →
      (evaluate steps form frame s).state.frames[rootFrame]? ≠ s.frames[rootFrame]? →
      frame = rootFrame ∨ (∀ n, ¬(evaluateSealed n form frame s).Ended) ∧
        ∀ test : State → State → Bool, (∀ t u, t.frames[rootFrame]? ≠ u.frames[rootFrame]? → test t u) →
          ∀ n, ¬(evaluateWatched test n form frame s).Ended) := by
  constructor
  · intro id hid hframe hroot
    have h : Keeps (Intact s.frames fun id => id = frame ∨ id = rootFrame) (evaluate steps form frame) fun _ => True :=
      evaluate_keeps (Or.inr (Or.inr rfl)) steps form frame (Or.inr (Or.inl rfl))
    exact (h s (intact_refl s)).1.kept id hid (by rintro (rfl | rfl) <;> contradiction)
  · intro hend hroot hchanged
    by_cases hframe : frame = rootFrame
    · exact .inl hframe
    have hfree : Free s.frames (fun id => id = frame) frame := .inr rfl
    refine .inr ⟨?_, fun test htest => ?_⟩
    · exact not_ended_of_root_changed (evaluateSealed_below · form frame) (evaluateSealed_keeps · form frame hfree)
        hend hroot hframe hchanged
    · exact not_ended_of_root_changed (evaluateWatched_below test · form frame)
        (evaluateWatched_keeps htest · form frame hfree) hend hroot hframe hchanged

/-- A session's root frame, and a frame inside it. -/
def twoFrames : State := (State.initial [] (.tree []) "" true 0).addFrame ⟨some rootFrame, []⟩

/-- A definition that is evaluated anew. -/
def definesAnew : Value :=
  .ofList [.symbol "eval", .ofList [.symbol "quote", .ofList [.symbol "def!", .symbol "x", .int 1]]]

/-- The definition goes into the root frame, although it is evaluated inside of another. -/
theorem evaluate_frames_anew : (evaluate 5 definesAnew 1 twoFrames).Ended ∧
    (evaluate 5 definesAnew 1 twoFrames).state.frames[rootFrame]?.map (·.bindings.length) =
      some (twoFrames.frames[rootFrame]!.bindings.length + 1) ∧
    (∀ n, ¬(evaluateSealed n definesAnew 1 twoFrames).Ended) ∧
    ∀ test : State → State → Bool, (∀ t u, t.frames[rootFrame]? ≠ u.frames[rootFrame]? → test t u) →
      ∀ n, ¬(evaluateWatched test n definesAnew 1 twoFrames).Ended := by
  have hend : (evaluate 5 definesAnew 1 twoFrames).Ended := trivial
  have hchanged : (evaluate 5 definesAnew 1 twoFrames).state.frames[rootFrame]?.map (·.bindings.length) =
      some (twoFrames.frames[rootFrame]!.bindings.length + 1) := rfl
  refine ⟨hend, hchanged, ?_⟩
  refine ((evaluate_frames 5 definesAnew 1 twoFrames).2 hend (by decide) fun hsame => ?_).resolve_left (by decide)
  rw [hsame] at hchanged
  exact absurd hchanged (by decide)

end SmallLisp
