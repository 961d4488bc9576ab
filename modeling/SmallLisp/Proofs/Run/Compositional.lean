/-
Relations of runs that pass on from runs to what is composed of them (`Run.Compositional`). In some of them the second
run goes on where the first may have halted for want of steps (`Run.Continuing`). The order of runs is one of these
(`below_continuing`). Any closed property, said of both runs, is compositional (`Closed.compositional`).
-/
import SmallLisp.Proofs.Run.Closed

namespace SmallLisp.Run

/-- The relation holds between what is the same and touches no frame, and passes on from runs to what is composed of
them. -/
structure CompositionalBesideFrames (R : ∀ α : Type, Run α → Run α → Prop) : Prop where
  self : ClosedBesideFrames fun α x => R α x x
  bind {α β : Type} {x y : Run α} {f g : α → Run β} : R α x y → (∀ a, R β (f a) (g a)) → R β (x >>= f) (y >>= g)
  /-- What runs do may depend on the state. -/
  look {α : Type} {x y : Run α} : (∀ s, ∃ x' y' : Run α, R α x' y' ∧ x s = x' s ∧ y s = y' s) → R α x y

/-- The relation holds between new frames and definitions that are the same as well, and passes on to handled runs. -/
structure Compositional (R : ∀ α : Type, Run α → Run α → Prop) : Prop extends CompositionalBesideFrames R where
  handle {α : Type} {x y : Run α} {f g : Fault → Run α} : R α x y → (∀ fault, R α (f fault) (g fault)) →
    R α (x.handle f) (y.handle g)
  newFrame (outer : FrameId) (bindings : Bindings) :
    R FrameId (Run.newFrame (some outer) bindings) (Run.newFrame (some outer) bindings)
  define (frame : FrameId) (name : String) (value : Value) :
    R Unit (Run.define frame name value) (Run.define frame name value)

/-- Of two related runs the second goes on where the first may have halted for want of steps. -/
structure Continuing (R : ∀ α : Type, Run α → Run α → Prop) : Prop extends Compositional R where
  right {α : Type} {x y : Run α} : R α x y → R α y y
  halt {α : Type} {y : Run α} : R α y y → R α (Run.halt .steps) y

/-- A property of runs, said of both. -/
theorem ClosedBesideFrames.compositional {P : ∀ α : Type, Run α → Prop} (h : ClosedBesideFrames P) :
    CompositionalBesideFrames fun α x y => P α x ∧ P α y where
  self := by simpa only [and_self] using h
  bind hxy hfg := ⟨h.bind hxy.1 fun a => (hfg a).1, h.bind hxy.2 fun a => (hfg a).2⟩
  look hlook := by
    constructor
    · refine h.look fun s => ?_
      obtain ⟨x', _, hboth, hx, _⟩ := hlook s
      exact ⟨x', hboth.1, hx⟩
    · refine h.look fun s => ?_
      obtain ⟨_, y', hboth, _, hy⟩ := hlook s
      exact ⟨y', hboth.2, hy⟩

theorem Closed.compositional {P : ∀ α : Type, Run α → Prop} (h : Closed P) :
    Compositional fun α x y => P α x ∧ P α y where
  toCompositionalBesideFrames := h.toClosedBesideFrames.compositional
  handle hxy hfg := ⟨h.handle hxy.1 fun fault => (hfg fault).1, h.handle hxy.2 fun fault => (hfg fault).2⟩
  newFrame outer bindings := ⟨h.newFrame outer bindings, h.newFrame outer bindings⟩
  define frame name value := ⟨h.define frame name value, h.define frame name value⟩

namespace CompositionalBesideFrames

variable {R : ∀ α : Type, Run α → Run α → Prop} (h : CompositionalBesideFrames R) {α β : Type}
include h

theorem pure (a : α) : R α (Pure.pure a) (Pure.pure a) := h.self.pure a

theorem mapM {f g : α → Run β} (hfg : ∀ a, R β (f a) (g a)) : ∀ as : List α, R (List β) (as.mapM f) (as.mapM g)
  | [] => h.pure _
  | a :: as => by
    rw [List.mapM_cons, List.mapM_cons]
    exact h.bind (hfg a) fun b => h.bind (mapM hfg as) fun bs => h.pure _

end CompositionalBesideFrames

/-- Runs in a number of steps are related, for no more steps in the first than in the second, if one step more keeps
them related. Of a run that is not begun for want of steps, all that counts is that the other is related to itself. -/
theorem Continuing.inSteps {R : ∀ α : Type, Run α → Run α → Prop} (h : Continuing R) {α ι κ : Type}
    {x y : Nat → ι → κ → Run α} (hx : ∀ i k, x 0 i k = Run.halt .steps) (hy : ∀ i k, y 0 i k = Run.halt .steps)
    (hself : ∀ n, (∀ i k, R α (y n i k) (y n i k)) → ∀ i k, R α (y (n + 1) i k) (y (n + 1) i k))
    (hstep : ∀ m n, m ≤ n → (∀ i k, R α (x m i k) (y n i k)) → ∀ i k, R α (x (m + 1) i k) (y (n + 1) i k))
    {m n : Nat} (hmn : m ≤ n) : ∀ i k, R α (x m i k) (y n i k) := by
  have hright : ∀ n i k, R α (y n i k) (y n i k) := by
    intro n
    induction n with
    | zero =>
      intro i k
      rw [hy]
      exact h.self.halt _
    | succ n ih => exact hself n ih
  induction m generalizing n with
  | zero =>
    intro i k
    rw [hx]
    exact h.halt (hright n i k)
  | succ m ih =>
    obtain ⟨n, rfl⟩ : ∃ k, n = k + 1 := ⟨n - 1, by omega⟩
    exact hstep m n (by omega) (ih (by omega))

/-! ## The order of runs -/

theorem shortOf_compositional (need : Need) : Compositional fun _ x y => ShortOf need x y where
  self := {
    pure := fun _ => .refl _
    halt := fun _ => .refl _
    fail := fun _ => .refl _
    throw := fun _ => .refl _
    bind := fun _ _ => .refl _
    look := fun _ => .refl _
    newCell := fun _ => .refl _
    setContent := fun _ _ => .refl _
    print := fun _ => .refl _
    nextLine := .refl _
    readClock := .refl _ }
  bind hxy hfg := .bind hxy hfg
  look hlook s := by
    obtain ⟨x', y', hshort, hx, hy⟩ := hlook s
    rw [hx, hy]
    exact hshort s
  handle hxy hfg := .handle hxy hfg
  newFrame _ _ := .refl _
  define _ _ _ := .refl _

theorem below_continuing : Continuing fun _ x y => x.Below y where
  toCompositional := shortOf_compositional .steps
  right _ := .refl _
  halt _ := .halt _

end SmallLisp.Run
