/-
What a run ensures in every outcome: the state keeps an invariant, values have one property and
faults another. Faults matter as much as values here, since a handler goes on with what it caught.
-/
import SmallLisp.Proofs.Run.Order

namespace SmallLisp.Run

variable {α β : Type} {I : State → Prop} {F : Fault → Prop}

/-- From states with the invariant, the run leads to such states, a value that it ends with has the
property `Q`, and a fault that it ends with has the property `F`. -/
def Ensures (I : State → Prop) (x : Run α) (Q : α → Prop) (F : Fault → Prop) : Prop :=
  ∀ s, I s → match x s with
    | .value a s' => I s' ∧ Q a
    | .fault f s' => I s' ∧ F f
    | .halted _ s' => I s'

namespace Ensures

theorem pure {a : α} {Q : α → Prop} (h : Q a) : Ensures I (Pure.pure a : Run α) Q F := fun _ hs => ⟨hs, h⟩

theorem fail {f : Fault} (h : F f) (Q : α → Prop) : Ensures I (Run.fail f : Run α) Q F := fun _ hs => ⟨hs, h⟩

theorem halt (need : Need) (Q : α → Prop) : Ensures I (Run.halt need : Run α) Q F := fun _ hs => hs

theorem modify {f : State → State} (h : ∀ s, I s → I (f s)) : Ensures I (Run.modify f) (fun _ => True) F :=
  fun s hs => ⟨h s hs, trivial⟩

theorem mono {G : Fault → Prop} {x : Run α} {P Q : α → Prop} (h : Ensures I x P F) (hPQ : ∀ a, P a → Q a)
    (hFG : ∀ f, F f → G f) : Ensures I x Q G := by
  intro s hs
  have hx := h s hs
  cases hxs : x s with
  | value a s' =>
    rw [hxs] at hx
    exact ⟨hx.1, hPQ a hx.2⟩
  | fault f s' =>
    rw [hxs] at hx
    exact ⟨hx.1, hFG f hx.2⟩
  | halted need s' =>
    rw [hxs] at hx
    exact hx

theorem weaken {x : Run α} {P Q : α → Prop} (h : Ensures I x P F) (hPQ : ∀ a, P a → Q a) : Ensures I x Q F :=
  h.mono hPQ fun _ hf => hf

/-- Of nothing, everything is ensured. -/
theorem nothing (x : Run α) : Ensures (fun _ => True) x (fun _ => True) (fun _ => True) := by
  intro s _
  cases x s with
  | value | fault => exact ⟨trivial, trivial⟩
  | halted => trivial

theorem state {x : Run α} {Q : α → Prop} (h : Ensures I x Q F) {s : State} (hs : I s) : I (x s).state := by
  have hx := h s hs
  cases hxs : x s with
  | value | fault =>
    rw [hxs] at hx
    exact hx.1
  | halted =>
    rw [hxs] at hx
    exact hx

theorem value {x : Run α} {Q : α → Prop} (h : Ensures I x Q F) {s s' : State} {a : α} (hs : I s)
    (hx : x s = .value a s') : I s' ∧ Q a := by
  have := h s hs
  rwa [hx] at this

theorem fault {x : Run α} {Q : α → Prop} (h : Ensures I x Q F) {s s' : State} {f : Fault} (hs : I s)
    (hx : x s = .fault f s') : I s' ∧ F f := by
  have := h s hs
  rwa [hx] at this

theorem bind {x : Run α} {f : α → Run β} {P : α → Prop} {Q : β → Prop} (h : Ensures I x P F)
    (hf : ∀ a, P a → Ensures I (f a) Q F) : Ensures I (x >>= f) Q F := by
  intro s hs
  have hx := h s hs
  rw [bind_apply]
  cases hxs : x s with
  | value a s' =>
    rw [hxs] at hx
    exact hf a hx.2 s' hx.1
  | fault f s' =>
    rw [hxs] at hx
    exact hx
  | halted need s' =>
    rw [hxs] at hx
    exact hx

theorem map {x : Run α} {g : α → β} {Q : β → Prop} (h : Ensures I x (fun a => Q (g a)) F) :
    Ensures I (g <$> x) Q F := by
  rw [map_eq_pure_bind]
  exact bind h fun a ha => pure ha

/-- A handler only has to deal with the faults that can arise. -/
theorem handle {x : Run α} {handler : Fault → Run α} {Q : α → Prop} (h : Ensures I x Q F)
    (hf : ∀ f, F f → Ensures I (handler f) Q F) : Ensures I (x.handle handler) Q F := by
  intro s hs
  have hx := h s hs
  unfold Run.handle
  cases hxs : x s with
  | value a s' =>
    rw [hxs] at hx
    exact hx
  | fault f s' =>
    rw [hxs] at hx
    exact hf f hx.2 s' hx.1
  | halted need s' =>
    rw [hxs] at hx
    exact hx

theorem ask {g : State → Except Fault α} {Q : α → Prop} (hvalue : ∀ s a, I s → g s = .ok a → Q a)
    (hfault : ∀ s f, g s = .error f → F f) : Ensures I (Run.ask g) Q F := by
  intro s hs
  unfold Run.ask
  cases hg : g s with
  | ok a => exact ⟨hs, hvalue s a hs hg⟩
  | error f => exact ⟨hs, hfault s f hg⟩

/-- The values of a row of runs have what each of them ensures. -/
theorem mapM {g : α → Run β} {Q : β → Prop} : ∀ {as : List α}, (∀ a ∈ as, Ensures I (g a) Q F) →
    Ensures I (as.mapM g) (fun bs => ∀ b ∈ bs, Q b) F
  | [], _ => pure fun _ h => absurd h List.not_mem_nil
  | a :: as, h => by
    obtain ⟨ha, has⟩ := List.forall_mem_cons.1 h
    rw [List.mapM_cons]
    exact bind ha fun b hb => bind (mapM has) fun bs hbs => pure (List.forall_mem_cons.2 ⟨hb, hbs⟩)

/-- A row of checks ensures what each of them does. -/
theorem forM {g : α → Run PUnit} {P : α → Prop} : ∀ {as : List α}, (∀ a ∈ as, Ensures I (g a) (fun _ => P a) F) →
    Ensures I (as.forM g) (fun _ => ∀ a ∈ as, P a) F
  | [], _ => pure fun _ h => absurd h List.not_mem_nil
  | a :: as, h => by
    obtain ⟨ha, has⟩ := List.forall_mem_cons.1 h
    exact bind ha fun _ hb => weaken (forM has) fun _ hbs => List.forall_mem_cons.2 ⟨hb, hbs⟩

end Ensures

end SmallLisp.Run
