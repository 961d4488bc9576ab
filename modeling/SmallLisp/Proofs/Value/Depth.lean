/-
How deep cells lie inside the contents of cells. Equality looks through at most as many cells as the
store has, which is enough: a chain of cells without a repetition is not longer. Main statement: a
cell whose content comes to an end is equal to another exactly if their contents are
(`cellsEqual_size`).
-/
import Mathlib.Data.Fintype.Card
import Mathlib.Order.Monotone.Basic
import SmallLisp.Value.Equal

namespace SmallLisp.Value

/-! ## The cells in a value -/

mutual

/-- The cells that occur in a value, in its items, its keys and its values. -/
def cellsIn : Value → List CellId
  | .list items _ => cellsInAll items
  | .vector items _ => cellsInAll items
  | .map entries _ => cellsInEntries entries
  | .cell id => [id]
  | _ => []
termination_by structural v => v

def cellsInAll : List Value → List CellId
  | [] => []
  | v :: vs => v.cellsIn ++ cellsInAll vs
termination_by structural vs => vs

def cellsInEntries : List (Value × Value) → List CellId
  | [] => []
  | (k, v) :: entries => k.cellsIn ++ v.cellsIn ++ cellsInEntries entries
termination_by structural entries => entries

end

theorem mem_cellsInAll {id : CellId} {vs : List Value} : id ∈ cellsInAll vs ↔ ∃ v ∈ vs, id ∈ v.cellsIn := by
  induction vs with
  | nil => simp [cellsInAll]
  | cons v vs ih => simp [cellsInAll, ih]

theorem mem_cellsInEntries {id : CellId} {entries : List (Value × Value)} :
    id ∈ cellsInEntries entries ↔ ∃ entry ∈ entries, id ∈ entry.1.cellsIn ∨ id ∈ entry.2.cellsIn := by
  induction entries with
  | nil => simp [cellsInEntries]
  | cons entry entries ih => simp [cellsInEntries, ih, or_assoc]

mutual

/-- An immutable value is one without cells. -/
theorem isImmutable_iff : ∀ v : Value, v.isImmutable = true ↔ v.cellsIn = []
  | .list items _ | .vector items _ => by rw [isImmutable, cellsIn, allImmutable_iff items]
  | .map entries _ => by rw [isImmutable, cellsIn, entriesImmutable_iff entries]
  | .cell _ => by simp [isImmutable, cellsIn]
  | .nil | .bool _ | .int _ | .float _ | .str _ | .symbol _ | .keyword _ | .closure .. | .primitive .. => by
    simp [isImmutable, cellsIn]
termination_by structural v => v

theorem allImmutable_iff (vs : List Value) : allImmutable vs = true ↔ cellsInAll vs = [] := by
  cases vs with
  | nil => simp [allImmutable, cellsInAll]
  | cons v vs => simp [allImmutable, cellsInAll, isImmutable_iff v, allImmutable_iff vs]
termination_by structural vs

theorem entriesImmutable_iff (entries : List (Value × Value)) :
    entriesImmutable entries = true ↔ cellsInEntries entries = [] := by
  cases entries with
  | nil => simp [entriesImmutable, cellsInEntries]
  | cons entry entries =>
    obtain ⟨k, v⟩ := entry
    simp [entriesImmutable, cellsInEntries, isImmutable_iff k, isImmutable_iff v, entriesImmutable_iff entries,
      and_assoc]
termination_by structural entries

end

section Congruence

variable {cells cells' : CellId → CellId → Bool}

mutual

/-- Equality with a value depends on the cells in it alone. -/
theorem equalWith_congr : ∀ a b : Value, (∀ id ∈ a.cellsIn, cells id = cells' id) →
    equalWith cells a b = equalWith cells' a b
  | .list as _, b, h | .vector as _, b, h => by cases b <;> simp only [equalWith, allEqualWith_congr as _ h]
  | .map as _, b, h => by cases b <;> simp only [equalWith, entriesWithin_congr as _ h]
  | .cell id, b, h => by cases b <;> simp only [equalWith, h id (List.mem_singleton_self id)]
  | .nil, b, _ | .bool _, b, _ | .int _, b, _ | .float _, b, _ | .str _, b, _ | .symbol _, b, _
  | .keyword _, b, _ | .closure .., b, _ | .primitive .., b, _ => by cases b <;> simp only [equalWith]
termination_by structural a => a

theorem allEqualWith_congr : ∀ as bs : List Value, (∀ id ∈ cellsInAll as, cells id = cells' id) →
    allEqualWith cells as bs = allEqualWith cells' as bs
  | [], bs, _ => by cases bs <;> simp only [allEqualWith]
  | a :: as, bs, h => by
    cases bs with
    | nil => simp only [allEqualWith]
    | cons b bs =>
      rw [allEqualWith, allEqualWith, equalWith_congr a b fun id hid => h id (List.mem_append_left _ hid),
        allEqualWith_congr as bs fun id hid => h id (List.mem_append_right _ hid)]
termination_by structural as => as

theorem entriesWithin_congr : ∀ as bs : List (Value × Value), (∀ id ∈ cellsInEntries as, cells id = cells' id) →
    entriesWithin cells as bs = entriesWithin cells' as bs
  | [], bs, _ => by simp only [entriesWithin]
  | (k, v) :: as, bs, h => by
    have hk : ∀ b, equalWith cells k b = equalWith cells' k b := fun b =>
      equalWith_congr k b fun id hid => h id (List.mem_append_left _ (List.mem_append_left _ hid))
    have hv : ∀ b, equalWith cells v b = equalWith cells' v b := fun b =>
      equalWith_congr v b fun id hid => h id (List.mem_append_left _ (List.mem_append_right _ hid))
    simp only [entriesWithin, hk, hv, entriesWithin_congr as bs fun id hid => h id (List.mem_append_right _ hid)]
termination_by structural as => as

end

end Congruence

/-- Between values without cells there is one equality, whatever the store. -/
theorem equalWith_immutable {a : Value} (h : a.isImmutable = true) (cells cells' : CellId → CellId → Bool) (b : Value) :
    equalWith cells a b = equalWith cells' a b :=
  equalWith_congr a b fun id hid => by
    rw [(isImmutable_iff a).1 h] at hid
    cases hid

/-! ## Settled cells -/

section Store

variable {cells : Array Value}

/-- Whether the content of a cell comes to an end within so many cells, this one included. -/
def Settled (cells : Array Value) : Nat → CellId → Prop
  | 0, _ => False
  | depth + 1, id => id < cells.size ∧ ∀ inner ∈ (cells.getD id .nil).cellsIn, Settled cells depth inner

theorem Settled.succ {depth : Nat} {id : CellId} (h : Settled cells depth id) : Settled cells (depth + 1) id := by
  induction depth generalizing id with
  | zero => exact h.elim
  | succ depth ih => exact ⟨h.1, fun inner hinner => ih (h.2 inner hinner)⟩

open Classical in
/-- The cells that are settled within a depth. -/
noncomputable def settledCells (cells : Array Value) (depth : Nat) : Finset (Fin cells.size) :=
  Finset.univ.filter fun id => Settled cells depth id

theorem mem_settledCells {depth : Nat} {id : CellId} (hid : id < cells.size) :
    ⟨id, hid⟩ ∈ settledCells cells depth ↔ Settled cells depth id := by
  simp [settledCells]

theorem settledCells_subset (depth : Nat) : settledCells cells depth ⊆ settledCells cells (depth + 1) := by
  rintro ⟨id, hid⟩ h
  exact (mem_settledCells hid).2 ((mem_settledCells hid).1 h).succ

/-- If one more level settles no further cell, then neither does the level after it. -/
theorem settledCells_stable {depth : Nat} (h : settledCells cells depth = settledCells cells (depth + 1)) :
    settledCells cells (depth + 1) = settledCells cells (depth + 2) := by
  refine (settledCells_subset _).antisymm ?_
  rintro ⟨id, hid⟩ hdeep
  obtain ⟨-, hinner⟩ := (mem_settledCells hid).1 hdeep
  refine (mem_settledCells hid).2 ⟨hid, fun inner hmem => ?_⟩
  -- what lies inside is settled one level earlier, so by assumption two levels earlier
  have hin := hinner inner hmem
  have hlt : inner < cells.size := hin.1
  rwa [← mem_settledCells hlt, ← h, mem_settledCells hlt] at hin

/-- Every level that settles a cell at all is reached within as many levels as there are cells. -/
theorem Settled.within_size {depth : Nat} {id : CellId} (h : Settled cells depth id) :
    Settled cells cells.size id := by
  have hmono : Monotone fun depth => (settledCells cells depth).card :=
    monotone_nat_of_le_succ fun depth => Finset.card_le_card (settledCells_subset depth)
  have hstable : ∀ depth, (settledCells cells depth).card = (settledCells cells (depth + 1)).card →
      (settledCells cells (depth + 1)).card = (settledCells cells (depth + 2)).card := fun depth hcard =>
    congrArg Finset.card (settledCells_stable (Finset.eq_of_subset_of_card_le (settledCells_subset depth) hcard.ge))
  have hbound : ∀ depth, (settledCells cells depth).card ≤ cells.size := fun depth => by
    simpa using Finset.card_le_univ (settledCells cells depth)
  have hid : id < cells.size := by
    cases depth with
    | zero => exact h.elim
    | succ depth => exact h.1
  have hsub : Monotone (settledCells cells) := monotone_nat_of_le_succ settledCells_subset
  rcases Nat.le_total depth cells.size with hle | hle
  · exact (mem_settledCells hid).1 (hsub hle ((mem_settledCells hid).2 h))
  · have heq : settledCells cells cells.size = settledCells cells depth :=
      Finset.eq_of_subset_of_card_le (hsub hle) (Nat.stabilises_of_monotone hmono hbound hstable hle).le
    rw [← mem_settledCells hid, heq]
    exact (mem_settledCells hid).2 h

/-- Once deep enough, looking deeper changes nothing about a cell's equality. -/
theorem cellsEqual_settled {depth deeper : Nat} {id : CellId} (h : Settled cells depth id) (hle : depth ≤ deeper) :
    cellsEqual cells deeper id = cellsEqual cells depth id := by
  induction depth generalizing id deeper with
  | zero => exact h.elim
  | succ depth ih =>
    obtain ⟨deeper, rfl⟩ : ∃ k, deeper = k + 1 := ⟨deeper - 1, by omega⟩
    funext other
    exact equalWith_congr _ _ fun inner hinner => ih (h.2 inner hinner) (Nat.le_of_succ_le_succ hle)

/-- A settled cell is equal to another exactly if their contents are. -/
theorem cellsEqual_size {depth : Nat} {id : CellId} (h : Settled cells depth id) (other : CellId) :
    cellsEqual cells cells.size id other = equal cells (cells.getD id .nil) (cells.getD other .nil) := by
  obtain ⟨size, hsize⟩ : ∃ k, cells.size = k + 1 := by
    have hid := h.within_size
    cases hcells : cells.size with
    | zero =>
      rw [hcells] at hid
      exact hid.elim
    | succ size => exact ⟨size, rfl⟩
  have hsettled := h.within_size
  unfold equal
  rw [hsize] at hsettled ⊢
  refine equalWith_congr _ _ fun inner hinner => ?_
  exact (cellsEqual_settled (hsettled.2 inner hinner) (Nat.le_succ size)).symm

end Store

end SmallLisp.Value
