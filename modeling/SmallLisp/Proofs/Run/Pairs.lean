/-
Pairs of runs. Two runs relate if from related states they come to related ends: both to values, both to
faults, or both to a halt for want of the same. In `Relates` the relations stay as they are; in
`RelatesFrom` they are given for every number, and a run may raise the number, as a run that adds frames
does. Both have a rule for every way in which runs are made of parts.
-/
import Mathlib.Data.List.Forall2
import SmallLisp.Proofs.Run.Order

namespace SmallLisp

/-- Ends of the same kind, with related states, and with related values or faults. -/
inductive Outcome.Rel {α β : Type} (R : State → State → Prop) (F : Fault → Fault → Prop) (Q : α → β → Prop) :
    Outcome α → Outcome β → Prop where
  | value {a : α} {b : β} {s t : State} : Q a b → R s t → Rel R F Q (.value a s) (.value b t)
  | fault {f g : Fault} {s t : State} : F f g → R s t → Rel R F Q (.fault f s) (.fault g t)
  | halted (need : Need) {s t : State} : R s t → Rel R F Q (.halted need s) (.halted need t)

namespace Outcome.Rel

variable {α β : Type} {R : State → State → Prop} {F : Fault → Fault → Prop} {Q : α → β → Prop}
  {o : Outcome α} {p : Outcome β}

theorem mono {R' : State → State → Prop} {F' : Fault → Fault → Prop} {Q' : α → β → Prop} (h : Rel R F Q o p)
    (hR : ∀ s t, R s t → R' s t) (hF : ∀ f g, F f g → F' f g) (hQ : ∀ a b, Q a b → Q' a b) : Rel R' F' Q' o p := by
  cases h with
  | value hab hst => exact .value (hQ _ _ hab) (hR _ _ hst)
  | fault hfg hst => exact .fault (hF _ _ hfg) (hR _ _ hst)
  | halted need hst => exact .halted need (hR _ _ hst)

theorem state (h : Rel R F Q o p) : R o.state p.state := by
  cases h <;> assumption

theorem ended_iff (h : Rel R F Q o p) : o.Ended ↔ p.Ended := by
  cases h <;> exact Iff.rfl

end Outcome.Rel

namespace Run

variable {α α' β β' : Type}

/-! ## Fixed relations -/

/-- From related states the runs come to related ends. -/
def Relates (R : State → State → Prop) (F : Fault → Fault → Prop) (x : Run α) (y : Run β) (Q : α → β → Prop) : Prop :=
  ∀ s t, R s t → Outcome.Rel R F Q (x s) (y t)

namespace Relates

variable {R : State → State → Prop} {F : Fault → Fault → Prop}

theorem pure {a : α} {b : β} {Q : α → β → Prop} (h : Q a b) :
    Relates R F (Pure.pure a : Run α) (Pure.pure b : Run β) Q := fun _ _ hst => .value h hst

theorem fail {f g : Fault} (h : F f g) (Q : α → β → Prop) : Relates R F (Run.fail f : Run α) (Run.fail g : Run β) Q :=
  fun _ _ hst => .fault h hst

theorem modify {f g : State → State} (h : ∀ s t, R s t → R (f s) (g t)) :
    Relates R F (Run.modify f) (Run.modify g) fun _ _ => True := fun s t hst => .value trivial (h s t hst)

theorem weaken {x : Run α} {y : Run β} {P Q : α → β → Prop} (h : Relates R F x y P) (hPQ : ∀ a b, P a b → Q a b) :
    Relates R F x y Q := fun s t hst => (h s t hst).mono (fun _ _ h => h) (fun _ _ h => h) hPQ

theorem bind {x : Run α} {y : Run β} {f : α → Run α'} {g : β → Run β'} {P : α → β → Prop} {Q : α' → β' → Prop}
    (h : Relates R F x y P) (hf : ∀ a b, P a b → Relates R F (f a) (g b) Q) : Relates R F (x >>= f) (y >>= g) Q := by
  intro s t hst
  have hxy := h s t hst
  rw [bind_apply, bind_apply]
  generalize x s = o at hxy
  generalize y t = p at hxy
  cases hxy with
  | value hab hst => exact hf _ _ hab _ _ hst
  | fault hfg hst => exact .fault hfg hst
  | halted need hst => exact .halted need hst

theorem map {x : Run α} {y : Run β} {f : α → α'} {g : β → β'} {Q : α' → β' → Prop}
    (h : Relates R F x y fun a b => Q (f a) (g b)) : Relates R F (f <$> x) (g <$> y) Q := by
  rw [map_eq_pure_bind, map_eq_pure_bind]
  exact bind h fun _ _ hab => pure hab

/-- Computations that look at the state relate if they come to the same. -/
theorem ask {f g : State → Except Fault α} (h : ∀ s t, R s t → f s = g t)
    (hF : ∀ s cause, f s = .error cause → F cause cause) :
    Relates R F (Run.ask f) (Run.ask g) Eq := by
  intro s t hst
  unfold Run.ask
  rw [← h s t hst]
  cases hf : f s with
  | ok a => exact .value rfl hst
  | error cause => exact .fault (hF s cause hf) hst

/-- Rows of runs relate if their members do, one by one. -/
theorem mapM {f : α → Run α'} {g : β → Run β'} {P : α → β → Prop} {Q : α' → β' → Prop}
    (hf : ∀ a b, P a b → Relates R F (f a) (g b) Q) {as : List α} {bs : List β} (h : List.Forall₂ P as bs) :
    Relates R F (as.mapM f) (bs.mapM g) (List.Forall₂ Q) := by
  induction h with
  | nil => exact pure .nil
  | cons hab _ ih =>
    rw [List.mapM_cons, List.mapM_cons]
    exact bind (hf _ _ hab) fun _ _ hcd => bind ih fun _ _ hrest => pure (.cons hcd hrest)

theorem mapM_eq {f : α → Run α'} {g : β → Run α'} {P : α → β → Prop} (hf : ∀ a b, P a b → Relates R F (f a) (g b) Eq)
    {as : List α} {bs : List β} (h : List.Forall₂ P as bs) : Relates R F (as.mapM f) (bs.mapM g) Eq :=
  (mapM hf h).weaken fun _ _ h => List.forall₂_eq_eq_eq ▸ h

theorem forM {f : α → Run PUnit} {g : β → Run PUnit} {P : α → β → Prop}
    (hf : ∀ a b, P a b → Relates R F (f a) (g b) fun _ _ => True) {as : List α} {bs : List β}
    (h : List.Forall₂ P as bs) :
    Relates R F (as.forM f) (bs.forM g) fun _ _ => True := by
  induction h with
  | nil => exact pure trivial
  | cons hab _ ih => exact bind (hf _ _ hab) fun _ _ _ => ih

end Relates

/-! ## Relations that grow -/

/-- From states that are related at a number, the runs come to ends that are related at this or a larger
one. -/
def RelatesFrom (R : Nat → State → State → Prop) (F : Nat → Fault → Fault → Prop) (n : Nat) (x : Run α) (y : Run β)
    (Q : Nat → α → β → Prop) : Prop :=
  ∀ s t, R n s t → ∃ m ≥ n, Outcome.Rel (R m) (F m) (Q m) (x s) (y t)

namespace RelatesFrom

variable {R : Nat → State → State → Prop} {F : Nat → Fault → Fault → Prop} {n : Nat}

theorem of_relates {x : Run α} {y : Run β} {Q : Nat → α → β → Prop} (h : Relates (R n) (F n) x y (Q n)) :
    RelatesFrom R F n x y Q := fun s t hst => ⟨n, Nat.le_refl n, h s t hst⟩

theorem pure {a : α} {b : β} {Q : Nat → α → β → Prop} (h : Q n a b) :
    RelatesFrom R F n (Pure.pure a : Run α) (Pure.pure b : Run β) Q := of_relates (.pure h)

theorem halt (need : Need) (Q : Nat → α → β → Prop) :
    RelatesFrom R F n (Run.halt need : Run α) (Run.halt need : Run β) Q :=
  fun _ _ hst => ⟨n, Nat.le_refl n, .halted need hst⟩

theorem bind {x : Run α} {y : Run β} {f : α → Run α'} {g : β → Run β'} {P : Nat → α → β → Prop}
    {Q : Nat → α' → β' → Prop} (h : RelatesFrom R F n x y P)
    (hf : ∀ m ≥ n, ∀ a b, P m a b → RelatesFrom R F m (f a) (g b) Q) : RelatesFrom R F n (x >>= f) (y >>= g) Q := by
  intro s t hst
  obtain ⟨m, hnm, hxy⟩ := h s t hst
  rw [bind_apply, bind_apply]
  generalize x s = o at hxy
  generalize y t = p at hxy
  cases hxy with
  | value hab hst =>
    obtain ⟨k, hmk, hrest⟩ := hf m hnm _ _ hab _ _ hst
    exact ⟨k, Nat.le_trans hnm hmk, hrest⟩
  | fault hfg hst => exact ⟨m, hnm, .fault hfg hst⟩
  | halted need hst => exact ⟨m, hnm, .halted need hst⟩

/-- A first part that leaves the number as it is. -/
theorem bind_relates {x : Run α} {y : Run β} {f : α → Run α'} {g : β → Run β'} {P : α → β → Prop}
    {Q : Nat → α' → β' → Prop} (h : Relates (R n) (F n) x y P)
    (hf : ∀ a b, P a b → RelatesFrom R F n (f a) (g b) Q) : RelatesFrom R F n (x >>= f) (y >>= g) Q := by
  have hx : RelatesFrom R F n x y fun m a b => m = n ∧ P a b := of_relates (h.weaken fun _ _ hab => ⟨rfl, hab⟩)
  refine hx.bind ?_
  rintro m - a b ⟨rfl, hab⟩
  exact hf a b hab

theorem handle {x : Run α} {y : Run β} {f : Fault → Run α} {g : Fault → Run β} {Q : Nat → α → β → Prop}
    (h : RelatesFrom R F n x y Q)
    (hf : ∀ m ≥ n, ∀ cause cause', F m cause cause' → RelatesFrom R F m (f cause) (g cause') Q) :
    RelatesFrom R F n (x.handle f) (y.handle g) Q := by
  intro s t hst
  obtain ⟨m, hnm, hxy⟩ := h s t hst
  unfold Run.handle
  generalize x s = o at hxy
  generalize y t = p at hxy
  cases hxy with
  | value hab hst => exact ⟨m, hnm, .value hab hst⟩
  | fault hfg hst =>
    obtain ⟨k, hmk, hrest⟩ := hf m hnm _ _ hfg _ _ hst
    exact ⟨k, Nat.le_trans hnm hmk, hrest⟩
  | halted need hst => exact ⟨m, hnm, .halted need hst⟩

/-- Rows of runs, if what is related stays related at larger numbers. -/
theorem mapM {f : α → Run α'} {g : β → Run β'} {P : Nat → α → β → Prop} {Q : Nat → α' → β' → Prop}
    (hP : ∀ {m k a b}, m ≤ k → P m a b → P k a b) (hQ : ∀ {m k a b}, m ≤ k → Q m a b → Q k a b)
    (hf : ∀ m a b, P m a b → RelatesFrom R F m (f a) (g b) Q) {as : List α} :
    ∀ {n : Nat} {bs : List β}, List.Forall₂ (P n) as bs →
      RelatesFrom R F n (as.mapM f) (bs.mapM g) fun m => List.Forall₂ (Q m) := by
  induction as with
  | nil =>
    intro n bs h
    cases h
    exact pure .nil
  | cons a as ih =>
    intro n bs h
    obtain ⟨b, bs, hab, hrest, rfl⟩ := List.forall₂_cons_left_iff.1 h
    rw [List.mapM_cons, List.mapM_cons]
    refine bind (hf n a b hab) fun m hnm c d hcd => ?_
    refine bind (ih (hrest.imp fun _ _ h => hP hnm h)) fun k hmk cs ds hcds => ?_
    exact pure (.cons (hQ hmk hcd) hcds)

end RelatesFrom

end Run

end SmallLisp
