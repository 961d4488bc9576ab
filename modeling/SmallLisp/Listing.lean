/-
The chain of frames from one outward to the root, and listings of it: the bindings of one frame, or of all
frames of its chain, with the values in the notation of fault messages. Section 4.2 of the specification.
-/
import SmallLisp.Run

namespace SmallLisp.State

/-! ## The chain -/

/-- The frame and those around it, from the inside out. -/
def chainWithin (s : State) : (steps : Nat) → FrameId → List FrameId
  | 0, _ => []
  | steps + 1, id =>
    id :: match s.frames[id]? with
      | some ⟨some outer, _⟩ => s.chainWithin steps outer
      | _ => []

def chain (s : State) (id : FrameId) : List FrameId := s.chainWithin (id + 1) id

/-- The outermost frame around a frame. -/
def rootOf (s : State) (id : FrameId) : FrameId := (s.chain id).getLast?.getD id

/-! ## Listings -/

/-- The bindings of a frame between curly brackets. -/
def bindingsText (s : State) (id : FrameId) : Except Fault String := do
  let bindings := (s.frames[id]?.map (·.bindings)).getD []
  let texts ← bindings.mapM fun binding => do
    return binding.1 ++ ": " ++ (← binding.2.inspect s.cells)
  return Value.enclosed "\x7b" ", " "\x7d" texts

/-- One frame, with a sign that there are others around it. -/
def frameText (s : State) (id : FrameId) : Except Fault String := do
  let outer := s.frames[id]?.bind (·.outer)
  return (← s.bindingsText id) ++ (if outer.isSome then " -> ..." else "")

/-- All frames from one outwards. -/
def chainText (s : State) (id : FrameId) : Except Fault String := do
  let texts ← (s.chain id).mapM s.bindingsText
  return Value.enclosed "<Environment chain: " " -> " ">" texts

end SmallLisp.State
