/-
Invariants of runs. A run keeps an invariant of the state if it leads from states that satisfy it to
such states, however it ends; `LeavesFrames` is the special case of runs that touch no frame at all.
-/
import SmallLisp.Proofs.Run.Closed

namespace SmallLisp.Run

variable {α β : Type} {I : State → Prop}

/-! ## Keeping an invariant -/

/-- The run leads from states with the invariant to such states, and a value that it ends with has
the property. -/
def Keeps (I : State → Prop) (x : Run α) (Q : α → Prop) : Prop :=
  ∀ s, I s → I (x s).state ∧ ∀ a s', x s = .value a s' → Q a

namespace Keeps

theorem pure {a : α} {Q : α → Prop} (h : Q a) : Keeps I (Pure.pure a : Run α) Q :=
  fun _ hs => ⟨hs, fun _ _ ha => by cases ha; exact h⟩

theorem halt (need : Need) (Q : α → Prop) : Keeps I (Run.halt need : Run α) Q :=
  fun _ hs => ⟨hs, fun _ _ ha => by cases ha⟩

theorem fail (f : Fault) (Q : α → Prop) : Keeps I (Run.fail f : Run α) Q :=
  fun _ hs => ⟨hs, fun _ _ ha => by cases ha⟩

theorem weaken {x : Run α} {P Q : α → Prop} (h : Keeps I x P) (hPQ : ∀ a, P a → Q a) : Keeps I x Q :=
  fun s hs => ⟨(h s hs).1, fun a s' hx => hPQ a ((h s hs).2 a s' hx)⟩

theorem bind {x : Run α} {f : α → Run β} {P : α → Prop} {Q : β → Prop} (h : Keeps I x P)
    (hf : ∀ a, P a → Keeps I (f a) Q) : Keeps I (x >>= f) Q := by
  intro s hs
  obtain ⟨hstate, hvalue⟩ := h s hs
  rw [bind_apply]
  cases hx : x s with
  | value a s' =>
    rw [hx] at hstate
    exact hf a (hvalue a s' hx) s' hstate
  | fault | halted =>
    rw [hx] at hstate
    exact ⟨hstate, fun _ _ ha => by cases ha⟩

theorem handle {x : Run α} {f : Fault → Run α} {Q : α → Prop} (h : Keeps I x Q)
    (hf : ∀ fault, Keeps I (f fault) Q) : Keeps I (x.handle f) Q := by
  intro s hs
  obtain ⟨hstate, hvalue⟩ := h s hs
  unfold Run.handle
  cases hx : x s with
  | fault fault s' =>
    rw [hx] at hstate
    exact hf fault s' hstate
  | value a s' =>
    rw [hx] at hstate
    exact ⟨hstate, fun _ _ ha => by cases ha; exact hvalue a s' hx⟩
  | halted =>
    rw [hx] at hstate
    exact ⟨hstate, fun _ _ ha => by cases ha⟩

end Keeps

/-! ## Leaving frames alone -/

/-- The run changes no frame and adds none. -/
def LeavesFrames (x : Run α) : Prop := ∀ s, (x s).state.frames = s.frames

theorem LeavesFrames.keeps {x : Run α} (h : x.LeavesFrames) (hI : ∀ s s', s'.frames = s.frames → I s → I s') :
    Keeps I x fun _ => True :=
  fun s hs => ⟨hI s _ (h s) hs, fun _ _ _ => trivial⟩

/-- Only new frames and definitions touch a frame. -/
theorem leavesFrames_closed : ClosedBesideFrames @LeavesFrames where
  pure _ _ := rfl
  halt _ _ := rfl
  fail _ _ := rfl
  throw v s := by
    rw [bind_apply, Run.inspected, Run.ask]
    cases v.inspect s.cells <;> rfl
  bind {α β x f} hx hf s := by
    have hs := hx s
    rw [bind_apply]
    cases hxs : x s with
    | value a t =>
      rw [hxs] at hs
      exact (hf a t).trans hs
    | fault | halted =>
      rw [hxs] at hs
      exact hs
  look hlook s := by
    obtain ⟨y, hy, heq⟩ := hlook s
    rw [heq]
    exact hy s
  newCell _ _ := rfl
  setContent _ _ _ := rfl
  print _ _ := rfl
  nextLine s := by
    unfold Run.nextLine
    split <;> rfl
  readClock _ := rfl

/-- An invariant of frames is kept by whatever is made of runs that keep it, beside frames. -/
theorem keeps_closed (hI : ∀ s s', s'.frames = s.frames → I s → I s') :
    ClosedBesideFrames fun _ x => Keeps I x fun _ => True where
  pure _ := .pure trivial
  halt _ := .halt _ _
  fail _ := .fail _ _
  throw v := (leavesFrames_closed.throw v).keeps hI
  bind hx hf := .bind hx fun a _ => hf a
  look hlook s hs := by
    obtain ⟨y, hy, heq⟩ := hlook s
    rw [heq]
    exact hy s hs
  newCell content := (leavesFrames_closed.newCell content).keeps hI
  setContent id content := (leavesFrames_closed.setContent id content).keeps hI
  print text := (leavesFrames_closed.print text).keeps hI
  nextLine := leavesFrames_closed.nextLine.keeps hI
  readClock := leavesFrames_closed.readClock.keeps hI

end SmallLisp.Run
