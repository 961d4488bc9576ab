/-
Names in new frames. Where the frames of a state are a tree (`State.IsTree`), a new frame takes no name away
from the older ones (`IsTree.get?_addFrame_old`), and what it does not bind stands in it for what it stands
for in the frame around it (`IsTree.get?_addFrame_inner`).
-/
import SmallLisp.Proofs.Run.Scopes
import SmallLisp.Session

namespace SmallLisp.State

variable {s : State} {name : String} {v : Value}

/-! ## What is found in a new frame -/

theorem resolveWithin_of_le {found : FrameId × Value} : ∀ {m n : Nat} {id : FrameId}, m ≤ n →
    s.resolveWithin name m id = some found → s.resolveWithin name n id = some found
  | m + 1, n + 1, id, hmn, h => by
    rw [resolveWithin] at h ⊢
    split at h
    · cases h
    · split at h
      · exact h
      · split at h
        · cases h
        · exact resolveWithin_of_le (Nat.le_of_succ_le_succ hmn) h

theorem lt_size_of_get? {id : FrameId} (h : s.get? id name = some v) : id < s.frames.size := by
  by_contra hsize
  have hnone : s.frames[id]? = none := Array.getElem?_eq_none (Nat.le_of_not_lt hsize)
  simp [get?, resolve?, resolveWithin, hnone] at h

/-- What is around the root frame is never looked at. -/
theorem resolve?_root_addFrame (hsize : 0 < s.frames.size) (frame : Frame) (name : String) :
    (s.addFrame frame).resolve? rootFrame name = s.resolve? rootFrame name := by
  have hroot : (s.addFrame frame).frames[rootFrame]? = s.frames[rootFrame]? :=
    (Array.getElem?_push_lt hsize).trans (Array.getElem?_eq_getElem hsize).symm
  simp only [resolve?, resolveWithin, hroot]
  rfl

theorem get?_root_addFrame (hsize : 0 < s.frames.size) (frame : Frame) (name : String) :
    (s.addFrame frame).get? rootFrame name = s.get? rootFrame name :=
  congrArg (Option.map Prod.snd) (resolve?_root_addFrame hsize frame name)

theorem get?_addFrame_bound {bindings : Bindings} (h : bindings.find? name = some v) (outer : Option FrameId) :
    (s.addFrame ⟨outer, bindings⟩).get? s.frames.size name = some v := by
  have hframe : (s.addFrame ⟨outer, bindings⟩).frames[s.frames.size]? = some ⟨outer, bindings⟩ :=
    Array.getElem?_push_size
  simp only [get?, resolve?, resolveWithin, hframe, h, Option.map_some]

/-- What the root frame binds is seen from a frame inside of it. -/
theorem get?_addFrame_root {bindings : Bindings} (h : s.get? rootFrame name = some v)
    (hbindings : bindings.find? name = none) :
    (s.addFrame ⟨some rootFrame, bindings⟩).get? s.frames.size name = some v := by
  have hsize := lt_size_of_get? h
  have hframe : (s.addFrame ⟨some rootFrame, bindings⟩).frames[s.frames.size]? = some ⟨some rootFrame, bindings⟩ :=
    Array.getElem?_push_size
  obtain ⟨found, hfound, rfl⟩ := Option.map_eq_some_iff.1 h
  rw [← resolve?_root_addFrame hsize ⟨some rootFrame, bindings⟩ name] at hfound
  have hinner := resolveWithin_of_le hsize hfound
  simp only [get?, resolve?, resolveWithin, hframe, hbindings, hinner, Option.map_some]

/-! ## Trees of frames -/

/-- Every frame but the root is inside of an older one. -/
structure IsTree (s : State) : Prop where
  root : ∃ bindings, s.frames[rootFrame]? = some ⟨none, bindings⟩
  outer : ∀ (id : FrameId) (frame : Frame), s.frames[id]? = some frame → id ≠ rootFrame →
    ∃ outer < id, frame.outer = some outer

theorem Chained.isTree (h : s.Chained) : s.IsTree := ⟨h.root, h.outer⟩

/-- What becomes of a frame when a name is bound: it stays where it is, and other names are not concerned. -/
theorem getElem?_define (s : State) (frame : FrameId) (bound : String) (v : Value) (id : FrameId) :
    ∃ f : Frame → Frame, (s.define frame bound v).frames[id]? = s.frames[id]?.map f ∧
      ∀ a, (f a).outer = a.outer ∧ ∀ name ≠ bound, (f a).bindings.find? name = a.bindings.find? name := by
  rw [define, Array.getElem?_modify]
  split
  · refine ⟨_, rfl, fun a => ⟨rfl, fun name hname => ?_⟩⟩
    rw [Bindings.find?_bind, if_neg (by simpa using Ne.symm hname)]
  · exact ⟨fun a => a, by simp, fun a => ⟨rfl, fun _ _ => rfl⟩⟩

theorem get?_define_ne {bound : String} (hname : name ≠ bound) (frame id : FrameId) :
    (s.define frame bound v).get? id name = s.get? id name := by
  have hwithin : ∀ steps id, (s.define frame bound v).resolveWithin name steps id = s.resolveWithin name steps id := by
    intro steps
    induction steps with
    | zero => exact fun _ => rfl
    | succ steps ih =>
      intro id
      obtain ⟨f, hf, hkept⟩ := s.getElem?_define frame bound v id
      rw [resolveWithin, resolveWithin, hf]
      cases s.frames[id]? with
      | none => rfl
      | some found => simp only [Option.map_some, (hkept found).1, (hkept found).2 name hname, ih]
  exact congrArg (Option.map Prod.snd) (hwithin (id + 1) id)

theorem get?_define_self {id : FrameId} (hid : id < s.frames.size) : (s.define id name v).get? id name = some v := by
  have hframe : (s.define id name v).frames[id]? =
      some ⟨s.frames[id].outer, s.frames[id].bindings.bind name v⟩ := by
    rw [define, Array.getElem?_modify, if_pos rfl, Array.getElem?_eq_getElem hid]
    rfl
  simp only [get?, resolve?, resolveWithin, hframe, Bindings.find?_bind, beq_self_eq_true, if_true, Option.map_some]

namespace IsTree

variable (h : s.IsTree)
include h

theorem root_lt : rootFrame < s.frames.size := by
  obtain ⟨bindings, hroot⟩ := h.root
  exact (Array.getElem?_eq_some_iff.1 hroot).1

/-- The frame around a frame is older. -/
theorem outer_lt {id outer : FrameId} {bindings : Bindings} (hframe : s.frames[id]? = some ⟨some outer, bindings⟩) :
    outer < id := by
  by_cases hid : id = rootFrame
  · subst hid
    obtain ⟨_, hroot⟩ := h.root
    rw [hroot] at hframe
    cases hframe
  · obtain ⟨_, hlt, houter⟩ := h.outer id _ hframe hid
    cases houter
    exact hlt

/-- Any number of steps that is larger than the place of the frame is enough. -/
theorem chainWithin_eq {m n : Nat} {id : FrameId} (hm : id < m) (hn : id < n) :
    s.chainWithin m id = s.chainWithin n id := by
  induction m generalizing n id with
  | zero => exact absurd hm (Nat.not_lt_zero id)
  | succ m ih =>
    obtain ⟨n, rfl⟩ := Nat.exists_eq_succ_of_ne_zero (Nat.ne_zero_of_lt hn)
    rw [chainWithin, chainWithin]
    cases hframe : s.frames[id]? with
    | none => rfl
    | some frame =>
      obtain ⟨outer?, bindings⟩ := frame
      cases outer? with
      | none => rfl
      | some outer =>
        have hlt := h.outer_lt hframe
        exact congrArg (id :: ·)
          (ih (Nat.lt_of_lt_of_le hlt (Nat.le_of_lt_succ hm)) (Nat.lt_of_lt_of_le hlt (Nat.le_of_lt_succ hn)))

/-- The way outward from a frame goes on as it does from the frame around it. -/
theorem chain_eq {id outer : FrameId} {bindings : Bindings} (hframe : s.frames[id]? = some ⟨some outer, bindings⟩) :
    s.chain id = id :: s.chain outer := by
  rw [chain, chainWithin, hframe]
  exact congrArg (id :: ·) (h.chainWithin_eq (h.outer_lt hframe) (Nat.lt_succ_self outer))

theorem resolveWithin_eq (name : String) {m n : Nat} {id : FrameId} (hm : id < m) (hn : id < n) :
    s.resolveWithin name m id = s.resolveWithin name n id := by
  rw [resolveWithin_eq_findSome?, resolveWithin_eq_findSome?, h.chainWithin_eq hm hn]

theorem resolveWithin_addFrame (new : Frame) (steps : Nat) {id : FrameId} (hid : id < s.frames.size) :
    (s.addFrame new).resolveWithin name steps id = s.resolveWithin name steps id := by
  induction steps generalizing id with
  | zero => rfl
  | succ steps ih =>
    have hsame : (s.addFrame new).frames[id]? = s.frames[id]? :=
      (Array.getElem?_push_lt hid).trans (Array.getElem?_eq_getElem hid).symm
    rw [resolveWithin, resolveWithin, hsame]
    cases hframe : s.frames[id]? with
    | none => rfl
    | some frame =>
      obtain ⟨outer?, bindings⟩ := frame
      cases outer? with
      | none => rfl
      | some outer => simp only [ih (Nat.lt_trans (h.outer_lt hframe) hid)]

theorem get?_addFrame_old (new : Frame) {id : FrameId} (hid : id < s.frames.size) (name : String) :
    (s.addFrame new).get? id name = s.get? id name :=
  congrArg (Option.map Prod.snd) (h.resolveWithin_addFrame new (id + 1) hid)

theorem get?_addFrame_inner {outer : FrameId} (houter : outer < s.frames.size) {bindings : Bindings}
    (hbindings : bindings.find? name = none) :
    (s.addFrame ⟨some outer, bindings⟩).get? s.frames.size name = s.get? outer name := by
  have hframe : (s.addFrame ⟨some outer, bindings⟩).frames[s.frames.size]? = some ⟨some outer, bindings⟩ :=
    Array.getElem?_push_size
  have hresolve := h.resolveWithin_eq name houter (Nat.lt_succ_self outer)
  simp only [get?, resolve?]
  rw [resolveWithin, hframe]
  simp only [hbindings, h.resolveWithin_addFrame _ _ houter, hresolve]

theorem addFrame {outer : FrameId} (houter : outer < s.frames.size) (bindings : Bindings) :
    (s.addFrame ⟨some outer, bindings⟩).IsTree where
  root := by
    obtain ⟨old, hroot⟩ := h.root
    refine ⟨old, ?_⟩
    rw [← hroot]
    exact (Array.getElem?_push_lt h.root_lt).trans (Array.getElem?_eq_getElem h.root_lt).symm
  outer id frame hframe hid := by
    rw [State.addFrame, Array.getElem?_push] at hframe
    split at hframe
    · next hnew =>
      cases hframe
      exact ⟨outer, hnew ▸ houter, rfl⟩
    · exact h.outer id frame hframe hid

theorem define (id : FrameId) (name : String) (v : Value) : (s.define id name v).IsTree where
  root := by
    obtain ⟨bindings, hroot⟩ := h.root
    obtain ⟨f, hf, hkept⟩ := s.getElem?_define id name v rootFrame
    have houter := (hkept ⟨none, bindings⟩).1
    rw [hf, hroot]
    exact ⟨_, congrArg some (congrArg (Frame.mk · _) houter)⟩
  outer i frame hframe hi := by
    obtain ⟨f, hf, hkept⟩ := s.getElem?_define id name v i
    rw [hf] at hframe
    obtain ⟨old, hold, rfl⟩ := Option.map_eq_some_iff.1 hframe
    rw [(hkept old).1]
    exact h.outer i old hold hi

end IsTree

end SmallLisp.State
