/-
Values without their metadata. Equality does not see metadata (`equalWith_bare`), so entries that
have different keys keep them different, and such entries are a map as they stand
(`Entries.ofList_of_distinct`).
-/
import SmallLisp.Value.Equal

namespace SmallLisp

namespace Value

mutual

/-- The value without metadata at any depth of its items, keys and values. -/
def bare : Value → Value
  | .list items _ => .list (bareAll items) .nil
  | .vector items _ => .vector (bareAll items) .nil
  | .map entries _ => .map (bareEntries entries) .nil
  | .closure params body frame isMacro _ => .closure params body frame isMacro .nil
  | .primitive p isMacro _ => .primitive p isMacro .nil
  | v => v
termination_by structural v => v

def bareAll : List Value → List Value
  | [] => []
  | v :: vs => v.bare :: bareAll vs
termination_by structural vs => vs

def bareEntries : List (Value × Value) → List (Value × Value)
  | [] => []
  | (k, v) :: entries => (k.bare, v.bare) :: bareEntries entries
termination_by structural entries => entries

end

theorem bareAll_eq_map (vs : List Value) : bareAll vs = vs.map bare := by
  induction vs with
  | nil => rfl
  | cons v vs ih => simp only [bareAll, ih, List.map_cons]

theorem bareEntries_eq_map (entries : List (Value × Value)) :
    bareEntries entries = entries.map fun entry => (entry.1.bare, entry.2.bare) := by
  induction entries with
  | nil => rfl
  | cons entry entries ih => simp only [bareEntries, ih, List.map_cons]

theorem length_bareEntries (entries : List (Value × Value)) : (bareEntries entries).length = entries.length := by
  rw [bareEntries_eq_map, List.length_map]

/-! ## Equality -/

section Equality

variable (cells : CellId → CellId → Bool)

mutual

/-- Equality does not see metadata. -/
theorem equalWith_bare : ∀ a b : Value, equalWith cells a.bare b.bare = equalWith cells a b
  | .list as _, b => by cases b <;> simp only [bare, equalWith, allEqualWith_bare as]
  | .vector as _, b => by cases b <;> simp only [bare, equalWith, allEqualWith_bare as]
  | .map as _, b => by
    cases b <;> simp only [bare, equalWith, entriesWithin_bare as, length_bareEntries]
  | .closure .., b => by cases b <;> simp only [bare, equalWith]
  | .primitive .., b => by cases b <;> simp only [bare, equalWith]
  | .nil, b | .bool _, b | .int _, b | .float _, b | .str _, b | .symbol _, b | .keyword _, b | .cell _, b => by
    cases b <;> simp only [bare, equalWith]
termination_by structural a => a

theorem allEqualWith_bare : ∀ as bs : List Value,
    allEqualWith cells (bareAll as) (bareAll bs) = allEqualWith cells as bs
  | [], bs => by cases bs <;> simp only [bareAll, allEqualWith]
  | a :: as, bs => by
    cases bs with
    | nil => simp only [bareAll, allEqualWith]
    | cons b bs => simp only [bareAll, allEqualWith, equalWith_bare a, allEqualWith_bare as]
termination_by structural as => as

theorem entriesWithin_bare : ∀ as bs : List (Value × Value),
    entriesWithin cells (bareEntries as) (bareEntries bs) = entriesWithin cells as bs
  | [], bs => by simp only [bareEntries, entriesWithin]
  | (k, v) :: as, bs => by
    -- the key finds the same entry, since the search sees no metadata either
    have hfind : (bareEntries bs).find? (fun entry => equalWith cells k.bare entry.1) =
        (bs.find? fun entry => equalWith cells k entry.1).map fun entry => (entry.1.bare, entry.2.bare) := by
      rw [bareEntries_eq_map, List.find?_map]
      simp only [Function.comp_def, equalWith_bare k]
    simp only [bareEntries, entriesWithin, hfind, entriesWithin_bare as]
    cases bs.find? fun entry => equalWith cells k entry.1 with
    | none => rfl
    | some entry => simp only [Option.map_some, equalWith_bare v]
termination_by structural as => as

end

end Equality

theorem sameKey_bare (a b : Value) : a.bare.sameKey b.bare = a.sameKey b := equalWith_bare _ a b

end Value

/-! ## Entries with different keys -/

namespace Entries

/-- Entries whose keys are all different. -/
def Distinct (entries : Entries) : Prop := entries.Pairwise fun a b => a.1.sameKey b.1 = false

instance (entries : Entries) : Decidable entries.Distinct := inferInstanceAs (Decidable (List.Pairwise _ _))

theorem distinct_bare {entries : Entries} (h : entries.Distinct) : Distinct (Value.bareEntries entries) := by
  rw [Distinct, Value.bareEntries_eq_map, List.pairwise_map]
  simpa only [Value.sameKey_bare, Distinct] using h

theorem insert_new {entries : Entries} {key value : Value} (h : ∀ entry ∈ entries, entry.1.sameKey key = false) :
    insert key value entries = entries ++ [(key, value)] := by
  induction entries with
  | nil => rfl
  | cons entry entries ih =>
    have hentry := h entry (List.mem_cons_self ..)
    rw [insert, hentry, ih fun e he => h e (List.mem_cons_of_mem _ he)]
    rfl

theorem merge_distinct {entries new : Entries} (h : Distinct (entries ++ new)) :
    merge entries new = entries ++ new := by
  induction new generalizing entries with
  | nil => exact (List.append_nil entries).symm
  | cons entry new ih =>
    rw [List.append_cons] at h ⊢
    have hnew : ∀ e ∈ entries, e.1.sameKey entry.1 = false := fun e he =>
      (List.pairwise_append.1 (List.pairwise_append.1 h).1).2.2 e he entry (List.mem_singleton_self entry)
    rw [← ih h, merge, List.foldl_cons, insert_new hnew]
    rfl

/-- Entries with different keys are a map as they stand. -/
theorem ofList_of_distinct {entries : Entries} (h : entries.Distinct) : ofList entries = entries :=
  merge_distinct h

end Entries

end SmallLisp
