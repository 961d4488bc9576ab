/-
What is read equals itself. The reader makes no function, no cell and no NaN, and it leaves one of equal
keys, so whatever is found inside of its forms is comparable over every store. Main statement:
`readAll_comparable`.
-/
import SmallLisp.Proofs.Session.Keys
import SmallLisp.Proofs.Value.Rereading

namespace SmallLisp.Source

open Value (Comparable)

/-- Whether a value is literal, and all that is found inside of it comparable over a store. -/
structure Written (cells : Array Value) (v : Value) : Prop where
  literal : v.Literal
  comparable : ∀ inner : Value, inner.Inside v → Comparable cells inner

variable {cells : Array Value}

theorem ne_nan_of_atomValue {chars : List Char} {x : Binary64} (h : atomValue chars = .ok (.float x)) : x ≠ .nan := by
  unfold atomValue at h
  split at h
  · cases h
  split at h
  · cases h
  split at h
  · cases h
  split at h
  · unfold integerValue at h
    split at h <;> cases h
  split at h
  · next x hx =>
    cases h
    rintro rfl
    exact floatNumeral?_ne_nan chars hx
  split at h
  · split at h <;> cases h
  · cases h
  · cases h

theorem comparable_of_atomValue {chars : List Char} {v : Value} (h : atomValue chars = .ok v) : Comparable cells v := by
  have hatomic := atomic_of_atomValue h
  cases v with
  | nil => exact .nil
  | bool => exact .bool _
  | int => exact .int _
  | float => exact .float (ne_nan_of_atomValue h)
  | str => exact .str _
  | symbol => exact .symbol _
  | keyword => exact .keyword _
  | list | vector | map | cell | closure | primitive => exact hatomic.elim

theorem Written.self {v : Value} (h : Written cells v) : Comparable cells v :=
  h.comparable v (Value.inside_iff.2 (.inl rfl))

/-- A value is comparable inside if it is comparable and its parts are. -/
theorem Written.of_parts {v : Value} (hliteral : v.Literal) (h : Comparable cells v)
    (hparts : ∀ part ∈ v.parts, part = .nil ∨ Written cells part) : Written cells v := by
  refine ⟨hliteral, fun inner hinner => ?_⟩
  rcases Value.inside_iff.1 hinner with rfl | ⟨part, hpart, hinner⟩
  · exact h
  rcases hparts part hpart with rfl | hwritten
  · rcases Value.inside_iff.1 hinner with rfl | ⟨_, hnone, _⟩
    · exact .nil
    · exact absurd hnone List.not_mem_nil
  · exact hwritten.comparable inner hinner

theorem written_of_atomValue {chars : List Char} {v : Value} (h : atomValue chars = .ok v) : Written cells v := by
  refine .of_parts (atomValue_literal h) (comparable_of_atomValue h) fun part hpart => ?_
  have hatomic := atomic_of_atomValue h
  cases v with
  | list | vector | map | cell | closure | primitive => exact hatomic.elim
  | _ => exact absurd hpart List.not_mem_nil

theorem written_symbol (name : String) : Written cells (.symbol name) :=
  .of_parts (literal_symbol name) (.symbol name) fun _ hpart => absurd hpart List.not_mem_nil

section Compounds

variable {items : List Value} (h : ∀ item ∈ items, Written cells item)
include h

/-- The entries that are read have written keys and values, and the keys are unequal. -/
theorem written_ofEntries : Written cells (.ofEntries (Entries.ofList (Entries.pairs items))) := by
  have hliteral := Value.literal_ofEntries_pairs fun item hitem => (h item hitem).literal
  have hentries : ∀ entry ∈ Entries.ofList (Entries.pairs items), Written cells entry.1 ∧ Written cells entry.2 := by
    refine Entries.forall_merge (fun _ hnone => absurd hnone List.not_mem_nil) fun entry hentry => ?_
    obtain ⟨hkey, hvalue⟩ := Entries.mem_of_mem_pairs hentry
    exact ⟨h _ hkey, h _ hvalue⟩
  refine .of_parts hliteral (.map .nil ?keys ?values ?distinct) fun part hpart => ?_
  case keys => exact fun entry hentry => (hentries entry hentry).1.self
  case values => exact fun entry hentry => (hentries entry hentry).2.self
  case distinct =>
    exact Value.unequal_of_distinct (fun entry hentry => (hentries entry hentry).1.literal.admissible.no_cell)
      (Value.sound_map.1 hliteral.sound).1.distinct
  · rcases List.mem_cons.1 hpart with rfl | hpart
    · exact .inl rfl
    rcases List.mem_append.1 hpart with hpart | hpart
    all_goals obtain ⟨entry, hentry, rfl⟩ := List.mem_map.1 hpart
    · exact .inr (hentries entry hentry).1
    · exact .inr (hentries entry hentry).2

theorem written_compound {b : Bracket} {v : Value} (hv : compound b items = .ok v) : Written cells v := by
  have hliteral := compound_literal (fun item hitem => (h item hitem).literal) hv
  have hparts : ∀ part ∈ Value.nil :: items, part = .nil ∨ Written cells part :=
    fun part hpart => (List.mem_cons.1 hpart).imp_right (h part)
  cases b with
  | round =>
    cases hv
    exact .of_parts hliteral (.list .nil fun item hitem => (h item hitem).self) hparts
  | square =>
    cases hv
    exact .of_parts hliteral (.vector .nil fun item hitem => (h item hitem).self) hparts
  | curly =>
    unfold compound at hv
    dsimp only at hv
    split at hv
    · cases hv
      exact written_ofEntries h
    · cases hv

end Compounds

theorem written_holdsOfForms : HoldsOfForms (Written cells) :=
  ⟨written_of_atomValue, written_symbol, fun h hv => written_compound h hv⟩

/-- Whatever is found inside of the forms of a text is comparable over every store. -/
theorem readAll_comparable (text : String) (cells : Array Value) : ∀ form ∈ (readAll text).forms, ∀ inner : Value,
    inner.Inside form → Comparable cells inner :=
  fun form hform => (written_holdsOfForms.readAll text form hform).comparable

end SmallLisp.Source
