/-
The keys of maps. Maps find their entries by comparing keys without looking into cells; since no key
contains a cell, this agrees with equality in every state. Main statement: wherever a session has
left a map, no two of its keys are equal, and none is a function or contains a cell
(`reachable_keys_apart`).
-/
import SmallLisp.Proofs.Session.Reachable
import SmallLisp.Proofs.Value.Equality

namespace SmallLisp

/-- Over a store, no two keys are equal, none is a function, and none contains a cell at any depth. -/
structure Entries.Apart (cells : Array Value) (entries : Entries) : Prop where
  unequal : entries.Pairwise fun a b => Value.equal cells a.1 b.1 = false ∧ Value.equal cells b.1 a.1 = false
  no_function : ∀ entry ∈ entries, entry.1.isFunction = false
  no_cell : ∀ entry ∈ entries, entry.1.cellsIn = []

namespace Value

/-- Whether every map that is found inside of a value, in keys, values, items, metadata and function
bodies at any depth, has keys apart. -/
def KeysApart (cells : Array Value) (v : Value) : Prop :=
  ∀ entries info, (Value.map entries info).Inside v → Entries.Apart cells entries

/-! ## Sound values -/

theorem equal_eq_sameKey {a : Value} (h : a.isImmutable = true) (cells : Array Value) (b : Value) :
    equal cells a b = a.sameKey b := equalWith_immutable h _ _ b

theorem unequal_of_distinct {cells : Array Value} {entries : Entries}
    (hkeys : ∀ entry ∈ entries, entry.1.isImmutable = true)
    (h : entries.Distinct) : entries.Pairwise fun a b => equal cells a.1 b.1 = false :=
  h.imp_of_mem fun ha _ hab => (equal_eq_sameKey (hkeys _ ha) cells _).trans hab

/-- A sound value without cells has unequal keys over every store. -/
theorem wellKeyed_of_sound (cells : Array Value) (v : Value) (h : v.Sound) (himmutable : v.isImmutable = true) :
    WellKeyed cells v := by
  match v with
  | .list items info =>
    have hitems := allImmutable_iff_forall.1 himmutable
    exact .list info fun v hv => wellKeyed_of_sound cells v ((sound_list.1 h).1 v hv) (hitems v hv)
  | .vector items info =>
    have hitems := allImmutable_iff_forall.1 himmutable
    exact .vector info fun v hv => wellKeyed_of_sound cells v ((sound_vector.1 h).1 v hv) (hitems v hv)
  | .map entries info =>
    have hentries := entriesImmutable_iff_forall.1 himmutable
    have hsound := (sound_map.1 h).1
    exact .map info
      (fun (key, value) he => wellKeyed_of_sound cells key (hsound.each _ he).key (hentries _ he).1)
      (fun (key, value) he => wellKeyed_of_sound cells value (hsound.each _ he).value (hentries _ he).2)
      (unequal_of_distinct (fun entry he => (hentries entry he).1) hsound.distinct)
  | .cell _ => cases himmutable
  | .nil | .bool _ | .int _ | .float _ | .str _ | .symbol _ | .keyword _ | .closure .. | .primitive .. =>
    exact .scalar rfl
termination_by v
decreasing_by
  · decreasing_tactic
  · decreasing_tactic
  all_goals
    have hentry := List.sizeOf_lt_of_mem he
    simp only [Value.map.sizeOf_spec, Prod.mk.sizeOf_spec] at hentry ⊢
    omega

/-- The keys of a sound map are apart over every store: they are unequal one way, and equality of
values without cells is symmetric. -/
theorem Sound.keysApart {v : Value} (h : v.Sound) (cells : Array Value) : v.KeysApart cells := by
  intro entries info hinside
  have hmap : (Value.map entries info).Sound := fun inner hinner => h inner (hinner.trans hinside)
  have hentries := (sound_map.1 hmap).1
  have himmutable : ∀ entry ∈ entries, entry.1.isImmutable = true := fun entry he =>
    (hentries.each entry he).admissible.no_cell
  have hkeyed : ∀ entry ∈ entries, WellKeyed cells entry.1 := fun entry he =>
    wellKeyed_of_sound cells entry.1 (hentries.each entry he).key (himmutable entry he)
  refine ⟨(unequal_of_distinct himmutable hentries.distinct).imp_of_mem fun {a b} ha hb hab => ⟨hab, ?_⟩,
    fun entry he => (hentries.each entry he).admissible.no_function,
    fun entry he => (isImmutable_iff _).1 (himmutable entry he)⟩
  refine Bool.eq_false_iff.2 fun hba => ?_
  have hequal := (hkeyed b hb).fair.symm (hkeyed a ha) hba
  rw [hab] at hequal
  cases hequal

end Value

/-! ## Sessions -/

namespace Session

/-- In every state that a session reaches, every map has its keys apart: in whatever frames and cells
hold, in the forms that a text writes, and in the value that a text comes to or that it throws. -/
theorem reachable_keys_apart {s : State} (h : Reachable s) :
    (∀ v, s.Holds v → v.KeysApart s.cells) ∧
    (∀ text, ∀ form ∈ (Source.readAll text).forms, form.KeysApart s.cells) ∧
    (∀ steps text v s', Session.eval steps text s = .value v s' → v.KeysApart s'.cells) ∧
    (∀ steps text v shown s', Session.eval steps text s = .fault (.thrown v shown) s' ∨
      Session.rep steps text s = .fault (.thrown v shown) s' → v.KeysApart s'.cells) := by
  refine ⟨fun v hv => (h.sound.held v hv).keysApart _,
    fun text form hform => (Source.readAll_literal text form hform).sound.keysApart _,
    fun steps text v s' heval => ((eval_safe steps text).value h.sound heval).2.keysApart _, ?_⟩
  rintro steps text v shown s' (hfault | hfault)
  · cases ((eval_safe steps text).fault h.sound hfault).2 with
    | thrown _ hv => exact hv.keysApart _
  · cases ((rep_safe steps text).fault h.sound hfault).2 with
    | thrown _ hv => exact hv.keysApart _

/-- A program that puts a map into a cell. Two of the keys that it is given are equal. -/
def mapInCell : String := "(atom (hash-map () 1 [] 2 nil 3))"

/-- The only form of `mapInCell`. -/
def mapInCellForm : Value :=
  .ofList [.symbol "atom", .ofList [.symbol "hash-map", .ofList [], .int 1, .ofVector [], .int 2, .nil, .int 3]]

theorem reachable_keys_apart_mapInCell :
    let s := (Session.eval 4 mapInCell (State.initial [] (.tree []) "" true 0)).state
    Reachable s ∧ ∃ entries info, s.Holds (.map entries info) ∧ entries.length = 2 ∧ Entries.Apart s.cells entries := by
  intro s
  have hreachable : Reachable s := .eval _ _ (.initial [] (.tree []) "" true 0)
  have hread : Source.readAll mapInCell = ⟨[mapInCellForm], none, []⟩ := by rfl
  have hcell : s.cells[0]? = some (.ofEntries [(.ofList [], .int 2), (.nil, .int 3)]) := by
    simp only [s, eval_eq_evaluate hread]
    rfl
  have hholds := State.Holds.content hcell
  exact ⟨hreachable, _, _, hholds, rfl, (reachable_keys_apart hreachable).1 _ hholds _ _
    (Value.inside_iff.2 (.inl rfl))⟩

end Session

end SmallLisp
