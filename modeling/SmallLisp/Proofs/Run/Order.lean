/-
An order on runs: one run is short of another if it ends as the other does, unless it halts for want of
something. Whatever runs are made of parts is monotone in them. The order for want of steps is `Run.Below`.
-/
import SmallLisp.Run

namespace SmallLisp

variable {α β : Type}

/-! ## Outcomes -/

/-- The state that a run has led to, however it ended. -/
def Outcome.state : Outcome α → State
  | .value _ s => s
  | .fault _ s => s
  | .halted _ s => s

/-- Whether a run ended with a value or with a fault. -/
def Outcome.Ended : Outcome α → Prop
  | .value .. => True
  | .fault .. => True
  | .halted .. => False

namespace Run

/-! ## The order -/

/-- From every state the first run comes to the same end as the second, or it halts for want of
something. -/
def ShortOf (need : Need) (x y : Run α) : Prop := ∀ s, x s = y s ∨ ∃ s', x s = .halted need s'

/-- The same for runs that halt for want of steps. -/
abbrev Below (x y : Run α) : Prop := ShortOf .steps x y

namespace ShortOf

variable {need : Need}

/-- A run that has ended is what the runs above it come to. -/
theorem eq_of_ended {x y : Run α} (h : ShortOf need x y) {s : State} (hend : (x s).Ended) : x s = y s := by
  rcases h s with h | ⟨s', h⟩
  · exact h
  · rw [h] at hend
    exact hend.elim

theorem value {x y : Run α} (h : ShortOf need x y) {s t : State} {a : α} (hx : x s = .value a t) : y s = .value a t :=
  (h.eq_of_ended (by rw [hx]; trivial)).symm.trans hx

theorem fault {x y : Run α} (h : ShortOf need x y) {s t : State} {fault : Fault} (hx : x s = .fault fault t) :
    y s = .fault fault t :=
  (h.eq_of_ended (by rw [hx]; trivial)).symm.trans hx

theorem refl (x : Run α) : ShortOf need x x := fun _ => Or.inl rfl

theorem halt (y : Run α) : ShortOf need (Run.halt need) y := fun s => Or.inr ⟨s, rfl⟩

theorem bind {x y : Run α} {f g : α → Run β} (h : ShortOf need x y) (hf : ∀ a, ShortOf need (f a) (g a)) :
    ShortOf need (x >>= f) (y >>= g) := by
  intro s
  rw [bind_apply, bind_apply]
  rcases h s with h | ⟨s', h⟩
  · rw [h]
    cases y s with
    | value a s' => exact hf a s'
    | fault | halted => exact Or.inl rfl
  · rw [h]
    exact Or.inr ⟨s', rfl⟩

theorem bind_left {x y : Run α} (f : α → Run β) (h : ShortOf need x y) : ShortOf need (x >>= f) (y >>= f) :=
  bind h fun a => refl (f a)

theorem handle {x y : Run α} {f g : Fault → Run α} (h : ShortOf need x y)
    (hf : ∀ fault, ShortOf need (f fault) (g fault)) :
    ShortOf need (x.handle f) (y.handle g) := by
  intro s
  unfold Run.handle
  rcases h s with h | ⟨s', h⟩
  · rw [h]
    cases y s with
    | fault fault s' => exact hf fault s'
    | value | halted => exact Or.inl rfl
  · rw [h]
    exact Or.inr ⟨s', rfl⟩

theorem mapM {f g : α → Run β} (hf : ∀ a, ShortOf need (f a) (g a)) (as : List α) :
    ShortOf need (as.mapM f) (as.mapM g) := by
  induction as with
  | nil => exact refl _
  | cons a as ih =>
    rw [List.mapM_cons, List.mapM_cons]
    exact bind (hf a) fun b => bind_left _ ih

end ShortOf

end Run

end SmallLisp
