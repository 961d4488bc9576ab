/-
Sound values: every map anywhere inside of one, metadata and function bodies included, has keys that
are pairwise different and could pass the check for keys. Whether a value is sound depends on its
parts alone (`sound_iff`), and the operations on entries keep sound entries sound.
-/
import Mathlib.Logic.Relation
import SmallLisp.Proofs.Value.Bare

namespace SmallLisp

namespace Value

/-! ## Parts -/

/-- What a value is made of: its items, its keys and values, its metadata, and the forms of its body. -/
def parts : Value → List Value
  | .list items info | .vector items info => info :: items
  | .map entries info => info :: (entries.map (·.1) ++ entries.map (·.2))
  | .closure _ body _ _ info => info :: body
  | .primitive _ _ info => [info]
  | _ => []

/-- Whether a value is found inside another one, at whatever depth; or it is the value itself. -/
def Inside : Value → Value → Prop := Relation.ReflTransGen fun inner outer => inner ∈ outer.parts

theorem inside_iff {inner outer : Value} :
    inner.Inside outer ↔ inner = outer ∨ ∃ part ∈ outer.parts, inner.Inside part := by
  refine (Relation.ReflTransGen.cases_tail_iff _ _ _).trans (or_congr eq_comm ?_)
  exact ⟨fun ⟨part, h, hpart⟩ => ⟨part, hpart, h⟩, fun ⟨part, hpart, h⟩ => ⟨part, h, hpart⟩⟩

/-! ## Sound values -/

/-- What the check for keys demands: no function, and no cell in it. -/
structure Admissible (key : Value) : Prop where
  no_function : key.isFunction = false
  no_cell : key.isImmutable = true

/-- What is demanded of the keys of a value, if it is a map. -/
def HasSoundKeys : Value → Prop
  | .map entries _ => (∀ entry ∈ entries, Admissible entry.1) ∧ Entries.Distinct entries
  | _ => True

/-- Whether every map inside of a value has sound keys. -/
def Sound (v : Value) : Prop := ∀ inner : Value, inner.Inside v → inner.HasSoundKeys

theorem sound_iff {v : Value} : v.Sound ↔ v.HasSoundKeys ∧ ∀ part ∈ v.parts, part.Sound := by
  constructor
  · exact fun h => ⟨h v (inside_iff.2 (.inl rfl)), fun part hpart inner hin =>
      h inner (inside_iff.2 (.inr ⟨part, hpart, hin⟩))⟩
  · rintro ⟨hkeys, hparts⟩ inner hin
    rcases inside_iff.1 hin with rfl | ⟨part, hpart, hin⟩
    · exact hkeys
    · exact hparts part hpart inner hin

/-- A value without parts has no keys. -/
theorem sound_of_parts_nil {v : Value} (h : v.parts = []) : v.Sound := by
  refine sound_iff.2 ⟨?_, by simp [h]⟩
  cases v with
  | map => cases h
  | _ => trivial

/-- Whether every value of a row is sound. -/
def AllSound (vs : List Value) : Prop := ∀ v ∈ vs, v.Sound

@[simp] theorem sound_nil : Value.nil.Sound := sound_of_parts_nil rfl

@[simp] theorem sound_str (text : String) : (Value.str text).Sound := sound_of_parts_nil rfl

@[simp] theorem sound_bool (b : Bool) : (Value.bool b).Sound := sound_of_parts_nil rfl

@[simp] theorem sound_symbol (name : String) : (Value.symbol name).Sound := sound_of_parts_nil rfl

@[simp] theorem sound_list {items : List Value} {info : Value} :
    (Value.list items info).Sound ↔ AllSound items ∧ info.Sound := by
  simp [sound_iff (v := .list items info), HasSoundKeys, parts, AllSound, and_comm]

@[simp] theorem sound_vector {items : List Value} {info : Value} :
    (Value.vector items info).Sound ↔ AllSound items ∧ info.Sound := by
  simp [sound_iff (v := .vector items info), HasSoundKeys, parts, AllSound, and_comm]

@[simp] theorem sound_closure {params : Parameters} {body : List Value} {frame : FrameId} {isMacro : Bool}
    {info : Value} : (Value.closure params body frame isMacro info).Sound ↔ AllSound body ∧ info.Sound := by
  simp [sound_iff (v := .closure ..), HasSoundKeys, parts, AllSound, and_comm]

@[simp] theorem sound_primitive {p : Primitive} {isMacro : Bool} {info : Value} :
    (Value.primitive p isMacro info).Sound ↔ info.Sound := by
  simp [sound_iff (v := .primitive ..), HasSoundKeys, parts]

theorem Sound.items {v : Value} {items : List Value} (h : v.Sound) (hv : v.items? = some items) : AllSound items := by
  cases v with
  | list => cases hv; exact (sound_list.1 h).1
  | vector => cases hv; exact (sound_vector.1 h).1
  | _ => cases hv

theorem Sound.info {v : Value} (h : v.Sound) : v.info.Sound := by
  cases v with
  | list | vector | map | closure | primitive => exact (sound_iff.1 h).2 _ (List.mem_cons_self ..)
  | _ => exact sound_nil

theorem Sound.asMacro {v macro? : Value} (h : v.Sound) (hv : v.asMacro? = some macro?) : macro?.Sound := by
  cases v with
  | closure => cases hv; exact sound_closure.2 (sound_closure.1 h)
  | primitive => cases hv; exact sound_primitive.2 (sound_primitive.1 h)
  | _ => cases hv

end Value

/-! ## Sound entries -/

namespace Entries

/-- What is demanded of a single entry. -/
structure SoundEntry (entry : Value × Value) : Prop where
  key : entry.1.Sound
  value : entry.2.Sound
  admissible : entry.1.Admissible

/-- Whether entries are those of a sound map. -/
structure Sound (entries : Entries) : Prop where
  each : ∀ entry ∈ entries, SoundEntry entry
  distinct : entries.Distinct

theorem mem_insert {key value : Value} {entries : Entries} {entry : Value × Value}
    (h : entry ∈ insert key value entries) :
    entry = (key, value) ∨ ∃ old ∈ entries, old.1 = entry.1 ∧ (entry.2 = old.2 ∨ entry.2 = value) := by
  induction entries with
  | nil => exact .inl (List.mem_singleton.1 h)
  | cons first entries ih =>
    rw [insert] at h
    split at h
    · rcases List.mem_cons.1 h with rfl | h
      · exact .inr ⟨first, List.mem_cons_self .., rfl, .inr rfl⟩
      · exact .inr ⟨entry, List.mem_cons_of_mem _ h, rfl, .inl rfl⟩
    · rcases List.mem_cons.1 h with rfl | h
      · exact .inr ⟨entry, List.mem_cons_self .., rfl, .inl rfl⟩
      · rcases ih h with hnew | ⟨old, hold, h⟩
        · exact .inl hnew
        · exact .inr ⟨old, List.mem_cons_of_mem _ hold, h⟩

/-- A property of keys and one of values that old and new entries have, all entries of a merger have. -/
theorem forall_merge {P Q : Value → Prop} {entries new : Entries} (hold : ∀ entry ∈ entries, P entry.1 ∧ Q entry.2)
    (hnew : ∀ entry ∈ new, P entry.1 ∧ Q entry.2) : ∀ entry ∈ merge entries new, P entry.1 ∧ Q entry.2 := by
  induction new generalizing entries with
  | nil => exact hold
  | cons added new ih =>
    obtain ⟨hadded, hnew⟩ := List.forall_mem_cons.1 hnew
    refine ih (fun entry he => ?_) hnew
    rcases mem_insert he with rfl | ⟨old, ho, hkey, hvalue⟩
    · exact hadded
    · obtain ⟨hp, hq⟩ := hold old ho
      refine ⟨hkey ▸ hp, ?_⟩
      rcases hvalue with hvalue | hvalue
      · exact hvalue ▸ hq
      · exact hvalue ▸ hadded.2

theorem Distinct.insert {entries : Entries} (h : entries.Distinct) (key value : Value) :
    (Entries.insert key value entries).Distinct := by
  induction entries with
  | nil => exact List.pairwise_singleton _ _
  | cons first entries ih =>
    obtain ⟨hfirst, hrest⟩ := List.pairwise_cons.1 h
    rw [Entries.insert]
    split
    · exact List.pairwise_cons.2 ⟨hfirst, hrest⟩
    · rename_i hne
      refine List.pairwise_cons.2 ⟨fun entry he => ?_, ih hrest⟩
      rcases mem_insert he with rfl | ⟨old, ho, hkey, -⟩
      · exact Bool.eq_false_iff.2 hne
      · exact hkey ▸ hfirst old ho

theorem Distinct.merge {entries : Entries} (h : entries.Distinct) (new : Entries) :
    (Entries.merge entries new).Distinct := by
  induction new generalizing entries with
  | nil => exact h
  | cons added new ih => exact ih (h.insert added.1 added.2)

theorem erase_sublist (key : Value) (entries : Entries) : List.Sublist (erase key entries) entries := by
  induction entries with
  | nil => exact .slnil
  | cons first entries ih =>
    rw [erase]
    split
    · exact List.sublist_cons_self ..
    · exact ih.cons_cons first

theorem Sound.erase {entries : Entries} (h : entries.Sound) (key : Value) : (Entries.erase key entries).Sound where
  each entry he := h.each entry ((erase_sublist key entries).subset he)
  distinct := h.distinct.sublist (erase_sublist key entries)

theorem Sound.merge {entries new : Entries} (h : entries.Sound) (hnew : ∀ entry ∈ new, SoundEntry entry) :
    (Entries.merge entries new).Sound where
  each entry he := by
    have hsplit : ∀ {e : Value × Value}, SoundEntry e → (e.1.Sound ∧ e.1.Admissible) ∧ e.2.Sound :=
      fun he => ⟨⟨he.key, he.admissible⟩, he.value⟩
    obtain ⟨⟨hkey, hadmissible⟩, hvalue⟩ := forall_merge (P := fun key => key.Sound ∧ key.Admissible)
      (fun e he => hsplit (h.each e he)) (fun e he => hsplit (hnew e he)) entry he
    exact ⟨hkey, hvalue, hadmissible⟩
  distinct := h.distinct.merge new

theorem sound_nil : Sound [] := ⟨fun _ h => absurd h List.not_mem_nil, List.Pairwise.nil⟩

/-- The map of a list of entries is sound, whether or not some keys come twice. -/
theorem sound_ofList {new : Entries} (h : ∀ entry ∈ new, SoundEntry entry) : (ofList new).Sound := sound_nil.merge h

theorem mem_of_mem_pairs : ∀ {items : List Value} {entry : Value × Value}, entry ∈ pairs items →
    entry.1 ∈ items ∧ entry.2 ∈ items
  | [], _, h | [_], _, h => absurd h List.not_mem_nil
  | key :: value :: items, entry, h => by
    rcases List.mem_cons.1 h with rfl | h
    · simp
    · have := mem_of_mem_pairs h
      simp [this]

theorem mem_of_find? {entries : Entries} {key value : Value} (h : entries.find? key = some value) :
    ∃ entry ∈ entries, entry.2 = value := by
  obtain ⟨entry, hfind, rfl⟩ := Option.map_eq_some_iff.1 h
  exact ⟨entry, List.mem_of_find?_eq_some hfind, rfl⟩

end Entries

namespace Value

@[simp] theorem sound_map {entries : Entries} {info : Value} :
    (Value.map entries info).Sound ↔ entries.Sound ∧ info.Sound := by
  rw [sound_iff]
  simp only [HasSoundKeys, parts, List.forall_mem_cons, List.mem_append, List.mem_map, or_imp, forall_and,
    forall_exists_index, and_imp, forall_apply_eq_imp_iff₂]
  constructor
  · rintro ⟨⟨hadmissible, hdistinct⟩, hinfo, hkeys, hvalues⟩
    exact ⟨⟨fun entry he => ⟨hkeys entry he, hvalues entry he, hadmissible entry he⟩, hdistinct⟩, hinfo⟩
  · rintro ⟨⟨heach, hdistinct⟩, hinfo⟩
    exact ⟨⟨fun entry he => (heach entry he).admissible, hdistinct⟩, hinfo, fun entry he => (heach entry he).key,
      fun entry he => (heach entry he).value⟩

theorem Sound.withInfo {v info v' : Value} (h : v.Sound) (hinfo : info.Sound) (hv : v.withInfo? info = some v') :
    v'.Sound := by
  cases v with
  | list | vector | map | closure =>
    cases hv
    simp_all
  | primitive => cases hv; exact sound_primitive.2 hinfo
  | _ => cases hv

/-! ## Literals -/

/-- The values that source text can write: sound ones that could be keys. -/
structure Literal (v : Value) : Prop where
  sound : v.Sound
  admissible : v.Admissible

theorem allImmutable_iff_forall {vs : List Value} : allImmutable vs = true ↔ ∀ v ∈ vs, v.isImmutable = true := by
  induction vs with
  | nil => simp [allImmutable]
  | cons v vs ih => simp [allImmutable, ih]

theorem entriesImmutable_iff_forall {entries : Entries} : entriesImmutable entries = true ↔
    ∀ entry ∈ entries, entry.1.isImmutable = true ∧ entry.2.isImmutable = true := by
  induction entries with
  | nil => simp [entriesImmutable]
  | cons entry entries ih =>
    rw [entriesImmutable, Bool.and_eq_true, Bool.and_eq_true, ih, List.forall_mem_cons]

section Literals

variable {items : List Value} (h : ∀ v ∈ items, v.Literal)
include h

theorem literal_ofList : (ofList items).Literal where
  sound := sound_list.2 ⟨fun v hv => (h v hv).sound, sound_nil⟩
  admissible := ⟨rfl, allImmutable_iff_forall.2 fun v hv => (h v hv).admissible.no_cell⟩

theorem literal_ofVector : (ofVector items).Literal where
  sound := sound_vector.2 ⟨fun v hv => (h v hv).sound, sound_nil⟩
  admissible := ⟨rfl, allImmutable_iff_forall.2 fun v hv => (h v hv).admissible.no_cell⟩

theorem literal_ofEntries_pairs : (ofEntries (Entries.ofList (Entries.pairs items))).Literal where
  sound := by
    refine sound_map.2 ⟨Entries.sound_ofList fun entry he => ?_, sound_nil⟩
    obtain ⟨hk, hv⟩ := Entries.mem_of_mem_pairs he
    exact ⟨(h _ hk).sound, (h _ hv).sound, (h _ hk).admissible⟩
  admissible := by
    refine ⟨rfl, entriesImmutable_iff_forall.2 ?_⟩
    refine Entries.forall_merge (P := fun v => v.isImmutable = true) (Q := fun v => v.isImmutable = true)
      (fun _ h => absurd h List.not_mem_nil) fun entry he => ?_
    obtain ⟨hk, hv⟩ := Entries.mem_of_mem_pairs he
    exact ⟨(h _ hk).admissible.no_cell, (h _ hv).admissible.no_cell⟩

end Literals

end Value

end SmallLisp
