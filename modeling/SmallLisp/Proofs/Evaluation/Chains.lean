/-
The store of frames in the course of an evaluation. `evaluateUpTo` is the evaluator, but halting where a test says so,
whenever an evaluation begins or ends, a nested one as well; so any state in the middle of an evaluation is the state of
some run of it. The less often it is interrupted the further an evaluation goes, and on the way the store of frames only
grows (`evaluateUpTo_before`). A state is chained if its frames are a tree and everything in it agrees with itself, so
what is known of runs over states that are alike carries over: a form whose functions belong to frames of a chained
state leads to a chained state again (`State.Chained.comes`).
-/
import SmallLisp.Proofs.Evaluation.Compositional
import SmallLisp.Proofs.Evaluation.Likeness
import SmallLisp.Proofs.Run.Growth
import SmallLisp.Proofs.Run.Limit
import SmallLisp.Proofs.Run.Tree

namespace SmallLisp

open Likeness (inStore)
open Run (Before before_continuing Comes comes_value_iff)

/-! ## The interrupted evaluator -/

/-- Evaluates a form like `evaluate`, but halts as soon as the evaluation of a form in a frame begins or ends in a
state where the test says so. -/
def evaluateUpTo (stop : Value → FrameId → State → Bool) : (steps : Nat) → Evaluator
  | 0, _, _ => Run.halt .steps
  | steps + 1, form, frame => Run.haltWhere (stop form frame) do
    (← reduce steps (evaluateUpTo stop steps) form frame).finish (evaluateUpTo stop steps)

/-- Without any interruption it is the evaluator. -/
theorem evaluateUpTo_never : ∀ steps : Nat, evaluateUpTo (fun _ _ _ => false) steps = evaluate steps
  | 0 => rfl
  | steps + 1 => by
    funext form frame
    rw [evaluate_succ, evaluateUpTo, evaluateUpTo_never steps, Run.haltWhere_false]

section Interruptions

variable {stop stop' : Value → FrameId → State → Bool} (hstop : ∀ form frame s, stop' form frame s → stop form frame s)
include hstop

theorem evaluateUpTo_succ_before {m n : Nat} (hmn : m ≤ n)
    (h : ∀ form frame, Before (evaluateUpTo stop m form frame) (evaluateUpTo stop' n form frame)) (form : Value)
    (frame : FrameId) : Before (evaluateUpTo stop (m + 1) form frame) (evaluateUpTo stop' (n + 1) form frame) :=
  .haltWhere (.bind (before_continuing.reduce h hmn form frame)
    (before_continuing.finish h)) (hstop form frame)

/-- With fewer interruptions and more steps an evaluation goes further, and the store of frames grows on the way. -/
theorem evaluateUpTo_before {m n : Nat} (hmn : m ≤ n) : ∀ (form : Value) (frame : FrameId),
    Before (evaluateUpTo stop m form frame) (evaluateUpTo stop' n form frame) :=
  before_continuing.inSteps (fun _ _ => rfl) (fun _ _ => rfl)
    (fun n ih => evaluateUpTo_succ_before (fun _ _ _ h => h) (Nat.le_refl n) ih)
    (fun _ _ hmn ih => evaluateUpTo_succ_before hstop hmn ih) hmn

end Interruptions

/-! ## Functions of the store -/

theorem Value.FramesBelow.mono {m n : Nat} {v : Value} (h : v.FramesBelow m) (hmn : m ≤ n) : v.FramesBelow n :=
  fun inner frame hin hframe => Nat.lt_of_lt_of_le (h inner frame hin hframe) hmn

theorem Value.framesBelow_ofList {n : Nat} {vs : List Value} (h : ∀ v ∈ vs, v.FramesBelow n) :
    (Value.ofList vs).FramesBelow n :=
  Likeness.Alike.framesBelow (Likeness.alike_ofList (Likeness.allAlike_of_framesBelow h))

/-- An evaluation only adds to the store of frames. -/
theorem evaluate_growsTo (steps : Nat) (form : Value) (frame : FrameId) (s : State) :
    s.GrowsTo (evaluate steps form frame s).state := by
  have hstop : ∀ form frame s, (fun _ _ _ => false : Value → FrameId → State → Bool) form frame s →
      (fun _ _ _ => false : Value → FrameId → State → Bool) form frame s := fun _ _ _ h => h
  obtain ⟨hgrows, -⟩ := evaluateUpTo_before hstop (Nat.le_refl steps) form frame s
  rwa [evaluateUpTo_never] at hgrows

namespace State

variable {s t : State} {frame : FrameId} {form v : Value}

/-! ## Agreement of a state with itself -/

theorem IsTree.chained (h : s.IsTree) (hs : inStore.StatesAlike s.frames.size s s) : s.Chained :=
  ⟨h.root, h.outer, fun _ => hs.framesBelow⟩

theorem Chained.inStore (h : s.Chained) : inStore.StatesAlike s.frames.size s s where
  size_left := rfl
  size_right := rfl
  root := h.isTree.root_lt
  outside := rfl
  frames id := by
    cases hframe : s.frames[id]? with
    | none => exact .none
    | some frame =>
      refine .some ⟨rfl, fun outer houter => ?_, List.forall₂_same.2 fun binding hb => ⟨rfl, ?_⟩⟩
      · obtain ⟨_, bindings⟩ := frame
        subst houter
        exact h.isTree.outer_lt hframe
      · exact Likeness.alike_of_framesBelow (h.functions _ (.bound hframe hb))
  cells := by
    refine ⟨rfl, fun id => ?_⟩
    rw [Array.getD_eq_getD_getElem?]
    cases hcell : s.cells[id]? with
    | none => exact .nil
    | some v => exact Likeness.alike_of_framesBelow (h.functions v (.content hcell))

/-! ## Chained states that come after chained states -/

theorem GrowsTo.size_le (h : s.GrowsTo t) : s.frames.size ≤ t.frames.size := by
  by_contra hless
  -- otherwise the first frame that is missing would not be kept
  obtain ⟨_, hkept, -⟩ := h.kept t.frames.size _ (Array.getElem?_eq_getElem (Nat.lt_of_not_le hless))
  rw [Array.getElem?_eq_none (Nat.le_refl _)] at hkept
  cases hkept

/-- What has grown from a tree is one, if frames are younger than those around them. -/
theorem IsTree.growsTo (h : s.IsTree) (hgrows : s.GrowsTo t)
    (hage : ∀ (id outer : FrameId) (frame : Frame), t.frames[id]? = some frame → frame.outer = some outer →
      outer < id) :
    t.IsTree where
  root := by
    obtain ⟨bindings, hroot⟩ := h.root
    obtain ⟨⟨_, bindings'⟩, hroot', hgrown⟩ := hgrows.kept rootFrame _ hroot
    obtain rfl := hgrown.outer_eq
    exact ⟨bindings', hroot'⟩
  outer id frame hframe hid := by
    have houter : ∃ outer, frame.outer = some outer := by
      cases hold : s.frames[id]? with
      | none => exact Option.isSome_iff_exists.1 (hgrows.added id frame hframe (Array.getElem?_eq_none_iff.1 hold))
      | some old =>
        -- an old frame is inside of the same frame still
        obtain ⟨outer, -, houter⟩ := h.outer id old hold hid
        obtain ⟨frame', hframe', hgrown⟩ := hgrows.kept id old hold
        cases hframe.symm.trans hframe'
        exact ⟨outer, hgrown.outer_eq.trans houter⟩
    obtain ⟨outer, houter⟩ := houter
    exact ⟨outer, hage id outer frame hframe houter, houter⟩

/-- The way outward from a frame stays what it is. -/
theorem IsTree.chain_growsTo (h : s.IsTree) (hgrows : s.GrowsTo t) {id : FrameId} (hid : id < s.frames.size) :
    t.chain id = s.chain id := by
  have hwithin : ∀ steps id, id < s.frames.size → t.chainWithin steps id = s.chainWithin steps id := by
    intro steps
    induction steps with
    | zero => exact fun _ _ => rfl
    | succ steps ih =>
      intro id hid
      obtain ⟨⟨outer?, _⟩, hframe', hgrown⟩ := hgrows.kept id _ (Array.getElem?_eq_getElem hid)
      obtain ⟨⟨outer?', _⟩, hframe⟩ : ∃ frame, s.frames[id] = frame := ⟨_, rfl⟩
      have hget := Array.getElem?_eq_getElem hid
      rw [hframe] at hgrown hget
      obtain rfl := hgrown.outer_eq
      rw [chainWithin, chainWithin, hframe', hget]
      cases outer? with
      | none => rfl
      | some outer => exact congrArg (id :: ·) (ih outer (Nat.lt_trans (h.outer_lt hget) hid))
  exact hwithin (id + 1) id hid

/-- The way outward leads to no younger frame. -/
theorem IsTree.le_of_mem_chain (h : s.IsTree) {id found : FrameId} (hfound : found ∈ s.chain id) : found ≤ id := by
  have hwithin : ∀ steps id, found ∈ s.chainWithin steps id → found ≤ id := by
    intro steps
    induction steps with
    | zero => exact fun _ hfound => absurd hfound List.not_mem_nil
    | succ steps ih =>
      intro id hfound
      rw [chainWithin] at hfound
      rcases List.mem_cons.1 hfound with rfl | hfound
      · exact Nat.le_refl found
      · split at hfound
        · next hframe => exact Nat.le_trans (ih _ hfound) (Nat.le_of_lt (h.outer_lt hframe))
        · cases hfound
  exact hwithin (id + 1) id hfound

namespace Chained

variable (h : s.Chained)
include h

theorem addFrame (hframe : frame < s.frames.size) {bindings : Bindings}
    (hbindings : bindings.Each (Value.FramesBelow s.frames.size)) : (s.addFrame ⟨some frame, bindings⟩).Chained := by
  have hsame : Likeness.inStore.BindingsAlike s.frames.size bindings bindings :=
    List.forall₂_same.2 fun binding hb => ⟨rfl, Likeness.alike_of_framesBelow (hbindings binding hb)⟩
  have hs := h.inStore.addFrame (hframe : Likeness.inStore.refers _ frame) hsame
  refine (h.isTree.addFrame hframe bindings).chained ?_
  rwa [← hs.size_left] at hs

theorem define (hv : v.FramesBelow s.frames.size) (id : FrameId) (name : String) : (s.define id name v).Chained := by
  have hs := h.inStore.define id name (Likeness.alike_of_framesBelow hv)
  refine IsTree.chained (h.isTree.define id name v) ?_
  rwa [hs.size_left]

/-- The state that an evaluation leads to is chained, and has all the frames that its value refers to. -/
theorem comes (hform : form.FramesBelow s.frames.size) (hframe : frame < s.frames.size)
    (hcomes : Comes (fun n => evaluate n form frame) s (.value v t)) :
    t.Chained ∧ s.GrowsTo t ∧ v.FramesBelow t.frames.size := by
  obtain ⟨n, hn⟩ := comes_value_iff.1 hcomes
  have hgrows := evaluate_growsTo n form frame s
  obtain ⟨m, -, hends⟩ := Likeness.evaluate_runsAlike n s.frames.size (Likeness.alike_of_framesBelow hform)
    (hframe : Likeness.inStore.refers _ frame) s s h.inStore
  rw [hn] at hgrows hends
  cases hends with
  | value hv hst =>
    obtain rfl := hst.size_left
    have htree := h.isTree.growsTo hgrows fun _ _ _ => hst.outer_lt
    exact ⟨htree.chained hst, hgrows, hv.framesBelow⟩

end Chained

end State

end SmallLisp
