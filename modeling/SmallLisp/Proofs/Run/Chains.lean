/-
Chains of frames. In a chained state (`State.Chained`) every frame but the root is inside of an older one. So
the way outward from a frame is finite and ends at the root (`State.Chained.outward_chain`), a name stands for
what the first frame on the way binds it to (`resolve?_eq_findSome?`), and a name that stands for something goes
on to when the store grows (`GrowsTo.resolves`).
-/
import SmallLisp.Proofs.Run.Growth
import SmallLisp.Proofs.Run.Store
import SmallLisp.Listing

namespace SmallLisp

namespace State

/-- The frames that a walk outward from a frame comes past, until it is at a frame that is inside of no other. No
bound is set to the walk. -/
inductive Outward (s : State) : FrameId → List FrameId → Prop where
  | last {id : FrameId} {bindings : Bindings} : s.frames[id]? = some ⟨none, bindings⟩ → Outward s id [id]
  | next {id outer : FrameId} {bindings : Bindings} {rest : List FrameId} :
    s.frames[id]? = some ⟨some outer, bindings⟩ → Outward s outer rest → Outward s id (id :: rest)

/-- What one frame binds a name to, with the frame. -/
def bindingAt (s : State) (name : String) (id : FrameId) : Option (FrameId × Value) :=
  (s.frames[id]?.bind (·.bindings.find? name)).map fun value => (id, value)

/-- The frames of a state are a tree that has grown from its root, and all functions belong to frames of it. -/
structure Chained (s : State) : Prop where
  root : ∃ bindings, s.frames[rootFrame]? = some ⟨none, bindings⟩
  /-- Any other frame was made after the one around it. -/
  outer : ∀ (id : FrameId) (frame : Frame), s.frames[id]? = some frame → id ≠ rootFrame →
    ∃ outer < id, frame.outer = some outer
  functions : ∀ v, s.Holds v → v.FramesBelow s.frames.size

/-! ## The way outward -/

/-- Resolving a name is searching the frames on the way. -/
theorem resolveWithin_eq_findSome? (s : State) (name : String) (steps : Nat) (id : FrameId) :
    s.resolveWithin name steps id = (s.chainWithin steps id).findSome? (s.bindingAt name) := by
  induction steps generalizing id with
  | zero => rfl
  | succ steps ih =>
    rw [resolveWithin, chainWithin, List.findSome?_cons]
    unfold bindingAt
    cases hframe : s.frames[id]? with
    | none => rfl
    | some frame =>
      obtain ⟨outer, bindings⟩ := frame
      dsimp only [Option.bind_some]
      cases bindings.find? name with
      | some value => rfl
      | none =>
        cases outer with
        | none => rfl
        | some outer => exact ih outer

theorem resolve?_eq_findSome? (s : State) (id : FrameId) (name : String) :
    s.resolve? id name = (s.chain id).findSome? (s.bindingAt name) := s.resolveWithin_eq_findSome? name (id + 1) id

namespace Chained

variable {s : State} (h : s.Chained)
include h

theorem outward_chainWithin {steps : Nat} {id : FrameId} (hsteps : id < steps) (hid : id < s.frames.size) :
    s.Outward id (s.chainWithin steps id) ∧ (s.chainWithin steps id).getLast? = some rootFrame := by
  induction steps generalizing id with
  | zero => exact absurd hsteps (Nat.not_lt_zero id)
  | succ steps ih =>
    by_cases hroot : id = rootFrame
    · obtain ⟨bindings, hframe⟩ := h.root
      subst hroot
      rw [chainWithin, hframe]
      exact ⟨.last hframe, rfl⟩
    · -- the frame around it is older, so it takes fewer steps from there
      obtain ⟨⟨outer?, bindings⟩, hframe⟩ : ∃ frame, s.frames[id]? = some frame := ⟨_, Array.getElem?_eq_getElem hid⟩
      obtain ⟨outer, hlt, rfl⟩ := h.outer id _ hframe hroot
      obtain ⟨hout, hlast⟩ := ih (Nat.lt_of_lt_of_le hlt (Nat.le_of_lt_succ hsteps)) (Nat.lt_trans hlt hid)
      rw [chainWithin, hframe]
      refine ⟨.next hframe hout, ?_⟩
      rw [List.getLast?_cons, hlast]
      rfl

/-- From every frame the way outward ends, and it ends at the root. -/
theorem outward_chain {id : FrameId} (hid : id < s.frames.size) :
    s.Outward id (s.chain id) ∧ (s.chain id).getLast? = some rootFrame :=
  h.outward_chainWithin (Nat.lt_succ_self id) hid

theorem rootOf_eq {id : FrameId} (hid : id < s.frames.size) : s.rootOf id = rootFrame := by
  rw [rootOf, (h.outward_chain hid).2]
  rfl

end Chained

/-! ## Later states -/

/-- A name that stands for something goes on to stand for something. -/
theorem GrowsTo.resolves {s t : State} (h : s.GrowsTo t) {id : FrameId} {name : String}
    (hresolves : (s.resolve? id name).isSome) : (t.resolve? id name).isSome := by
  have hwithin : ∀ steps id, (s.resolveWithin name steps id).isSome → (t.resolveWithin name steps id).isSome := by
    intro steps
    induction steps with
    | zero => exact fun _ h => h
    | succ steps ih =>
      intro id hs
      rw [resolveWithin] at hs ⊢
      cases hframe : s.frames[id]? with
      | none =>
        rw [hframe] at hs
        cases hs
      | some frame =>
        obtain ⟨frame', hframe', hgrown⟩ := h.kept id frame hframe
        rw [hframe] at hs
        rw [hframe']
        dsimp only at hs ⊢
        cases hfind' : frame'.bindings.find? name with
        | some value => rfl
        | none =>
          -- what is not bound was not bound before, so both go on to the same frame
          have hfind : frame.bindings.find? name = none := by
            rw [← Option.not_isSome_iff_eq_none]
            intro hbound
            rw [← Option.not_isSome_iff_eq_none] at hfind'
            exact hfind' (hgrown.bound name hbound)
          rw [hfind, ← hgrown.outer_eq] at hs
          dsimp only at hs ⊢
          cases houter : frame'.outer with
          | none =>
            rw [houter] at hs
            cases hs
          | some outer =>
            rw [houter] at hs
            exact ih outer hs
  exact hwithin _ id hresolves

end State

end SmallLisp
