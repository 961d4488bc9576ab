/-
Values erased of their metadata at every depth, the bodies of functions included. Values agree up to
metadata if and only if they are erased to the same and the one primitive that looks at metadata is not
inside of them (`alike_iff_erased`).
-/
import SmallLisp.Proofs.Value.Likeness
import SmallLisp.Proofs.Value.Soundness

namespace SmallLisp

namespace Value

mutual

/-- The value without metadata at any depth. -/
def erased : Value → Value
  | .list items _ => .list (erasedAll items) .nil
  | .vector items _ => .vector (erasedAll items) .nil
  | .map entries _ => .map (erasedEntries entries) .nil
  | .closure params body frame isMacro _ => .closure params (erasedAll body) frame isMacro .nil
  | .primitive p isMacro _ => .primitive p isMacro .nil
  | v => v
termination_by structural v => v

def erasedAll : List Value → List Value
  | [] => []
  | v :: vs => v.erased :: erasedAll vs
termination_by structural vs => vs

def erasedEntries : List (Value × Value) → List (Value × Value)
  | [] => []
  | (k, v) :: entries => (k.erased, v.erased) :: erasedEntries entries
termination_by structural entries => entries

end

theorem erasedAll_eq_map (vs : List Value) : erasedAll vs = vs.map erased := by
  induction vs with
  | nil => rfl
  | cons v vs ih => simp only [erasedAll, ih, List.map_cons]

theorem erasedEntries_eq_map (entries : List (Value × Value)) :
    erasedEntries entries = entries.map fun entry => (entry.1.erased, entry.2.erased) := by
  induction entries with
  | nil => rfl
  | cons entry entries ih => simp only [erasedEntries, ih, List.map_cons]

/-! ## Primitives inside of values -/

variable {p : Primitive}

/-- Whether a value is a certain primitive, flagged as a macro or not. -/
def IsPrimitive (p : Primitive) : Value → Prop
  | .primitive q _ _ => q = p
  | _ => False

/-- Whether a primitive is not found in a value, at whatever depth; metadata does not count. -/
def Lacks (p : Primitive) (v : Value) : Prop := ∀ inner : Value, inner.Inside v.erased → ¬ inner.IsPrimitive p

/-- Nil stands in the place of metadata, and other parts are erased as well. -/
theorem lacks_iff {v : Value} {parts : List Value} (hparts : v.erased.parts = .nil :: parts.map erased)
    (hv : ¬ v.erased.IsPrimitive p) : v.Lacks p ↔ ∀ part ∈ parts, part.Lacks p := by
  constructor
  · intro h part hpart inner hin
    refine h inner (inside_iff.2 (.inr ⟨part.erased, ?_, hin⟩))
    rw [hparts]
    exact List.mem_cons_of_mem _ (List.mem_map_of_mem hpart)
  · intro h inner hin
    rcases inside_iff.1 hin with rfl | ⟨part, hpart, hin⟩
    · exact hv
    · rw [hparts, List.mem_cons, List.mem_map] at hpart
      rcases hpart with rfl | ⟨part, hpart, rfl⟩
      · rcases inside_iff.1 hin with rfl | ⟨_, hnone, _⟩
        · exact id
        · exact absurd hnone List.not_mem_nil
      · exact h part hpart inner hin

/-- A value without parts lacks every primitive that it is not itself. -/
theorem lacks_of_parts_nil {v : Value} (hparts : v.erased.parts = []) (hv : ¬ v.erased.IsPrimitive p) : v.Lacks p := by
  intro inner hin
  rcases inside_iff.1 hin with rfl | ⟨_, hnone, _⟩
  · exact hv
  · rw [hparts] at hnone
    exact absurd hnone List.not_mem_nil

@[simp] theorem lacks_list {items : List Value} {info : Value} :
    (Value.list items info).Lacks p ↔ ∀ v ∈ items, v.Lacks p :=
  lacks_iff (by rw [erased, parts, erasedAll_eq_map]) id

@[simp] theorem lacks_vector {items : List Value} {info : Value} :
    (Value.vector items info).Lacks p ↔ ∀ v ∈ items, v.Lacks p :=
  lacks_iff (by rw [erased, parts, erasedAll_eq_map]) id

@[simp] theorem lacks_closure {params : Parameters} {body : List Value} {frame : FrameId} {isMacro : Bool}
    {info : Value} : (Value.closure params body frame isMacro info).Lacks p ↔ ∀ v ∈ body, v.Lacks p :=
  lacks_iff (by rw [erased, parts, erasedAll_eq_map]) id

@[simp] theorem lacks_map {entries : List (Value × Value)} {info : Value} :
    (Value.map entries info).Lacks p ↔ ∀ entry ∈ entries, entry.1.Lacks p ∧ entry.2.Lacks p := by
  have hparts : (Value.map entries info).erased.parts =
      .nil :: (entries.map (·.1) ++ entries.map (·.2)).map erased := by
    rw [erased, parts, erasedEntries_eq_map]
    simp only [List.map_map, List.map_append, Function.comp_def]
  rw [lacks_iff hparts id, List.forall_mem_append, List.forall_mem_map, List.forall_mem_map]
  exact forall₂_and.symm

@[simp] theorem lacks_primitive {q : Primitive} {isMacro : Bool} {info : Value} :
    (Value.primitive q isMacro info).Lacks p ↔ q ≠ p := by
  constructor
  · exact fun h hqp => h _ (inside_iff.2 (.inl rfl)) hqp
  · exact fun h => (@lacks_iff p (.primitive q isMacro info) [] rfl h).2 fun _ hnone => absurd hnone List.not_mem_nil

end Value

namespace Likeness

open Value (erased erasedAll erasedEntries)

/-- Metadata does not count; the primitive that looks at it may not occur. -/
def upToInfo : Likeness where
  refers _ _ := True
  admits p := p ≠ .getMeta
  comparesInfo := False
  refers_mono _ h := h
  refers_new _ := trivial
  comparesInfo_of_admits h := h rfl

variable {n : Nat}

mutual

theorem Alike.erased_eq : ∀ {v w : Value}, upToInfo.Alike n v w → v.erased = w.erased
  | .nil, _, .nil | .bool _, _, .bool _ | .int _, _, .int _ | .float _, _, .float _ | .str _, _, .str _
  | .symbol _, _, .symbol _ | .keyword _, _, .keyword _ | .cell _, _, .cell _ | .primitive .., _, .primitive .. => rfl
  | .list .., _, .list h _ => by rw [erased, erased, AllAlike.erased_eq h]
  | .vector .., _, .vector h _ => by rw [erased, erased, AllAlike.erased_eq h]
  | .map .., _, h@(.map ..) => by rw [erased, erased, EntriesAlike.erased_eq h.entries]
  | .closure .., _, .closure _ _ h _ _ => by rw [erased, erased, AllAlike.erased_eq h]

theorem AllAlike.erased_eq : ∀ {vs ws : List Value}, upToInfo.AllAlike n vs ws → erasedAll vs = erasedAll ws
  | [], _, .nil => rfl
  | _ :: _, _, .cons h hs => by rw [erasedAll, erasedAll, Alike.erased_eq h, AllAlike.erased_eq hs]

theorem EntriesAlike.erased_eq : ∀ {as bs : List (Value × Value)}, upToInfo.EntriesAlike n as bs →
    erasedEntries as = erasedEntries bs
  | [], _, .nil => rfl
  | (_, _) :: _, (_, _) :: _, .cons h hs => by
    rw [erasedEntries, erasedEntries, Alike.erased_eq h.key, Alike.erased_eq h.value, EntriesAlike.erased_eq hs]

end

mutual

theorem Alike.lacks : ∀ {v w : Value}, upToInfo.Alike n v w → v.Lacks .getMeta
  | .nil, _, .nil | .bool _, _, .bool _ | .int _, _, .int _ | .float _, _, .float _ | .str _, _, .str _
  | .symbol _, _, .symbol _ | .keyword _, _, .keyword _ | .cell _, _, .cell _ => Value.lacks_of_parts_nil rfl id
  | .list .., _, .list h _ => Value.lacks_list.2 (AllAlike.lacks h)
  | .vector .., _, .vector h _ => Value.lacks_vector.2 (AllAlike.lacks h)
  | .map .., _, h@(.map ..) => Value.lacks_map.2 (EntriesAlike.lacks h.entries)
  | .closure .., _, .closure _ _ h _ _ => Value.lacks_closure.2 (AllAlike.lacks h)
  | .primitive .., _, .primitive _ h _ => Value.lacks_primitive.2 h

theorem AllAlike.lacks : ∀ {vs ws : List Value}, upToInfo.AllAlike n vs ws → ∀ v ∈ vs, v.Lacks .getMeta
  | [], _, .nil => fun _ hnone => absurd hnone List.not_mem_nil
  | _ :: _, _, .cons h hs => List.forall_mem_cons.2 ⟨Alike.lacks h, AllAlike.lacks hs⟩

theorem EntriesAlike.lacks : ∀ {as bs : List (Value × Value)}, upToInfo.EntriesAlike n as bs →
    ∀ entry ∈ as, entry.1.Lacks .getMeta ∧ entry.2.Lacks .getMeta
  | [], _, .nil => fun _ hnone => absurd hnone List.not_mem_nil
  | (_, _) :: _, _, .cons h hs =>
    List.forall_mem_cons.2 ⟨⟨Alike.lacks h.key, Alike.lacks h.value⟩, EntriesAlike.lacks hs⟩

end

mutual

theorem alike_of_erased : ∀ {v w : Value}, v.erased = w.erased → v.Lacks .getMeta → upToInfo.Alike n v w
  | .nil, w, h, _ => by cases w <;> cases h; exact .nil
  | .bool b, w, h, _ => by cases w <;> cases h; exact .bool b
  | .int i, w, h, _ => by cases w <;> cases h; exact .int i
  | .float x, w, h, _ => by cases w <;> cases h; exact .float x
  | .str text, w, h, _ => by cases w <;> cases h; exact .str text
  | .symbol name, w, h, _ => by cases w <;> cases h; exact .symbol name
  | .keyword name, w, h, _ => by cases w <;> cases h; exact .keyword name
  | .cell id, w, h, _ => by cases w <;> cases h; exact .cell id
  | .list items _, w, h, hlacks => by
    cases w with
    | list items' _ => exact .list (allAlike_of_erased (by injection h) (Value.lacks_list.1 hlacks)) False.elim
    | _ => cases h
  | .vector items _, w, h, hlacks => by
    cases w with
    | vector items' _ => exact .vector (allAlike_of_erased (by injection h) (Value.lacks_vector.1 hlacks)) False.elim
    | _ => cases h
  | .map entries _, w, h, hlacks => by
    cases w with
    | map entries' _ => exact alike_map (entriesAlike_of_erased (by injection h) (Value.lacks_map.1 hlacks)) False.elim
    | _ => cases h
  | .closure params body frame isMacro _, w, h, hlacks => by
    cases w with
    | closure params' body' frame' isMacro' _ =>
      injection h with hparams hbody hframe hflag
      subst hparams hframe hflag
      exact .closure params isMacro (allAlike_of_erased hbody (Value.lacks_closure.1 hlacks)) trivial False.elim
    | _ => cases h
  | .primitive p isMacro _, w, h, hlacks => by
    cases w with
    | primitive => cases h; exact .primitive isMacro (Value.lacks_primitive.1 hlacks) False.elim
    | _ => cases h

theorem allAlike_of_erased : ∀ {vs ws : List Value}, erasedAll vs = erasedAll ws → (∀ v ∈ vs, v.Lacks .getMeta) →
    upToInfo.AllAlike n vs ws
  | [], [], _, _ => .nil
  | [], _ :: _, h, _ => by cases h
  | _ :: _, [], h, _ => by cases h
  | v :: vs, w :: ws, h, hlacks => by
    obtain ⟨hv, hvs⟩ := List.forall_mem_cons.1 hlacks
    injection h with hfirst hrest
    exact .cons (alike_of_erased hfirst hv) (allAlike_of_erased hrest hvs)

theorem entriesAlike_of_erased : ∀ {as bs : List (Value × Value)}, erasedEntries as = erasedEntries bs →
    (∀ entry ∈ as, entry.1.Lacks .getMeta ∧ entry.2.Lacks .getMeta) → upToInfo.EntriesAlike n as bs
  | [], [], _, _ => .nil
  | [], (_, _) :: _, h, _ => by cases h
  | (_, _) :: _, [], h, _ => by cases h
  | (k, v) :: as, (k', v') :: bs, h, hlacks => by
    obtain ⟨⟨hk, hv⟩, hrest⟩ := List.forall_mem_cons.1 hlacks
    injection h with hentry hentries
    injection hentry with hkey hvalue
    exact .cons ⟨alike_of_erased hkey hk, alike_of_erased hvalue hv⟩ (entriesAlike_of_erased hentries hrest)

end

/-- Values agree up to metadata if they are the same without it, and metadata is not looked at in them. -/
theorem alike_iff_erased {v w : Value} : upToInfo.Alike n v w ↔ v.erased = w.erased ∧ v.Lacks .getMeta :=
  ⟨fun h => ⟨h.erased_eq, h.lacks⟩, fun h => alike_of_erased h.1 h.2⟩

end Likeness

end SmallLisp
