/-
What runs come to when they are given steps enough. A family of runs that climbs comes to one end at
most; what a composed family comes to depends only on what its parts come to (`comes_bind_congr`), so
that how the steps are shared out among the parts does not matter.
-/
import SmallLisp.Proofs.Run.Order

namespace SmallLisp.Run

variable {α β : Type}

/-- More steps change nothing but that a run may end. -/
def Climbs (x : Nat → Run α) : Prop := ∀ m n, m ≤ n → (x m).Below (x n)

/-- With steps enough, the run comes to an end. -/
def Comes (x : Nat → Run α) (s : State) (o : Outcome α) : Prop := ∃ n, x n s = o ∧ o.Ended

namespace Climbs

theorem const (x : Run α) : Climbs fun _ => x := fun _ _ _ => .refl x

theorem bind {x : Nat → Run α} {f : Nat → α → Run β} (h : Climbs x) (hf : ∀ a, Climbs fun n => f n a) :
    Climbs fun n => x n >>= f n := fun m n hmn => .bind (h m n hmn) fun a => hf a m n hmn

theorem ite {x y : Nat → Run α} (hx : Climbs x) (hy : Climbs y) (b : Bool) :
    Climbs fun n => if b then x n else y n := by
  cases b with
  | true => exact hx
  | false => exact hy

theorem comes {x : Nat → Run α} (h : Climbs x) {s : State} {o : Outcome α} (ho : Comes x s o) :
    ∃ m, ∀ n ≥ m, x n s = o := by
  obtain ⟨m, rfl, hend⟩ := ho
  exact ⟨m, fun n hmn => ((h m n hmn).eq_of_ended hend).symm⟩

end Climbs

theorem Comes.ended {x : Nat → Run α} {s : State} {o : Outcome α} (h : Comes x s o) : o.Ended := by
  obtain ⟨_, _, hend⟩ := h
  exact hend

/-- A family that climbs comes to one end at most. -/
theorem Climbs.unique {x : Nat → Run α} (hx : Climbs x) {s : State} {o o' : Outcome α} (ho : Comes x s o)
    (ho' : Comes x s o') : o = o' := by
  obtain ⟨m, hm⟩ := hx.comes ho
  obtain ⟨k, hk⟩ := hx.comes ho'
  exact (hm _ (Nat.le_max_left m k)).symm.trans (hk _ (Nat.le_max_right m k))

theorem Climbs.comes_iff {x : Nat → Run α} (hx : Climbs x) {s : State} {o o' : Outcome α} (h : Comes x s o') :
    Comes x s o ↔ o = o' := ⟨fun ho => hx.unique ho h, fun ho => ho ▸ h⟩

theorem comes_value_iff {x : Nat → Run α} {s t : State} {a : α} : Comes x s (.value a t) ↔ ∃ n, x n s = .value a t :=
  exists_congr fun _ => and_iff_left trivial

theorem comes_fault_iff {x : Nat → Run α} {s t : State} {fault : Fault} :
    Comes x s (.fault fault t) ↔ ∃ n, x n s = .fault fault t :=
  exists_congr fun _ => and_iff_left trivial

/-- Families that are equal from some number of steps on, each from its own state, come to the same ends. -/
theorem comes_iff_of_eq {x y : Nat → Run α} (hx : Climbs x) (hy : Climbs y) {s t : State} {m j k : Nat}
    (h : ∀ n ≥ m, x (n + j) s = y (n + k) t) (o : Outcome α) : Comes x s o ↔ Comes y t o := by
  constructor
  · intro ho
    obtain ⟨l, hl⟩ := hx.comes ho
    refine ⟨max m l + k, ?_, ho.ended⟩
    rw [← h _ (Nat.le_max_left m l)]
    exact hl _ (Nat.le_add_right_of_le (Nat.le_max_right m l))
  · intro ho
    obtain ⟨l, hl⟩ := hy.comes ho
    refine ⟨max m l + j, ?_, ho.ended⟩
    rw [h _ (Nat.le_max_left m l)]
    exact hl _ (Nat.le_add_right_of_le (Nat.le_max_right m l))

theorem comes_congr {x y : Nat → Run α} (hx : Climbs x) (hy : Climbs y) {s : State}
    (h : ∃ j k, ∀ n, x (n + j) s = y (n + k) s) (o : Outcome α) : Comes x s o ↔ Comes y s o := by
  obtain ⟨j, k, h⟩ := h
  exact comes_iff_of_eq hx hy (fun n (_ : n ≥ 0) => h n) o

/-- A composition comes to a fault of its first part, or to what its second part comes to after the
value of the first. -/
theorem comes_bind {x : Nat → Run α} {f : Nat → α → Run β} (hx : Climbs x) (hf : ∀ a, Climbs fun n => f n a)
    {s : State} {o : Outcome β} : Comes (fun n => x n >>= f n) s o ↔
      (∃ fault s', Comes x s (.fault fault s') ∧ o = .fault fault s') ∨
      ∃ a s', Comes x s (.value a s') ∧ Comes (fun n => f n a) s' o := by
  constructor
  · rintro ⟨n, hn, hend⟩
    dsimp only at hn
    rw [bind_apply] at hn
    cases hxs : x n s with
    | value a s' =>
      rw [hxs] at hn
      exact .inr ⟨a, s', ⟨n, hxs, trivial⟩, n, hn, hend⟩
    | fault fault s' =>
      rw [hxs] at hn
      exact .inl ⟨fault, s', ⟨n, hxs, trivial⟩, hn.symm⟩
    | halted need s' =>
      rw [hxs] at hn
      subst hn
      exact hend.elim
  · rintro (⟨fault, s', ⟨n, hn, _⟩, rfl⟩ | ⟨a, s', hvalue, hrest⟩)
    · refine ⟨n, ?_, trivial⟩
      dsimp only
      rw [bind_apply, hn]
    · -- both parts end with the larger number of steps
      obtain ⟨m, hm⟩ := hx.comes hvalue
      obtain ⟨k, hk⟩ := (hf a).comes hrest
      refine ⟨max m k, ?_, hrest.ended⟩
      dsimp only
      rw [bind_apply, hm _ (Nat.le_max_left m k)]
      exact hk _ (Nat.le_max_right m k)

theorem comes_bind_congr {x x' : Nat → Run α} {f f' : Nat → α → Run β} (hx : Climbs x) (hx' : Climbs x')
    (hf : ∀ a, Climbs fun n => f n a) (hf' : ∀ a, Climbs fun n => f' n a) {s : State}
    (h : ∀ o, Comes x s o ↔ Comes x' s o)
    (hrest : ∀ a s', Comes x s (.value a s') → ∀ o, Comes (fun n => f n a) s' o ↔ Comes (fun n => f' n a) s' o)
    (o : Outcome β) : Comes (fun n => x n >>= f n) s o ↔ Comes (fun n => x' n >>= f' n) s o := by
  rw [comes_bind hx hf, comes_bind hx' hf']
  refine or_congr (exists_congr fun fault => exists_congr fun s' => and_congr_left fun _ => h _)
    (exists_congr fun a => exists_congr fun s' => ?_)
  rw [← h]
  exact and_congr_right fun ha => hrest a s' ha o

section Known

variable {x : Nat → Run α} {f : Nat → α → Run β} (hx : Climbs x) (hf : ∀ a, Climbs fun n => f n a) {s t : State}
include hx hf

/-- A composition goes on after the value that its first part comes to. -/
theorem comes_bind_of_value {a : α} (h : Comes x s (.value a t)) (o : Outcome β) :
    Comes (fun n => x n >>= f n) s o ↔ Comes (fun n => f n a) t o := by
  rw [comes_bind hx hf]
  constructor
  · rintro (⟨_, _, hfault, -⟩ | ⟨_, _, hvalue, hrest⟩)
    · cases hx.unique hfault h
    · cases hx.unique hvalue h
      exact hrest
  · exact fun ho => .inr ⟨a, t, h, ho⟩

/-- A fault of its first part is all that a composition comes to. -/
theorem comes_bind_of_fault {fault : Fault} (h : Comes x s (.fault fault t)) (o : Outcome β) :
    Comes (fun n => x n >>= f n) s o ↔ o = .fault fault t := by
  rw [comes_bind hx hf]
  constructor
  · rintro (⟨_, _, hfault, rfl⟩ | ⟨_, _, hvalue, -⟩)
    · cases hx.unique hfault h
      rfl
    · cases hx.unique hvalue h
  · exact fun ho => .inl ⟨fault, t, h, ho⟩

end Known

end SmallLisp.Run
