/-
Equality as a relation. A map is equal to another if each of its entries is found in the other and
both have equally many, so that symmetry rests on a count; and it rests on the keys being equal or
not, which is decided by the same relation. The laws are therefore proved together, one value at a
time, of all that it is compared with (`Fair`). Main statement: on values without functions and NaN,
equality is an equivalence relation that keeps kinds apart, and the primitive `=` decides whether all
its arguments are equal to each other (`equal_isEquivalence`).
-/
import Mathlib.Data.List.Pairwise
import SmallLisp.Primitive.Dispatch
import SmallLisp.Proofs.Value.Depth

namespace SmallLisp

/-! ## Numbers -/

theorem Binary64.Position.compare_eq_iff {p q : Binary64.Position} : p.compare q = .eq ↔ p = q := by
  obtain ⟨side, units⟩ := p
  obtain ⟨side', units'⟩ := q
  simp [Binary64.Position.compare, Ordering.then_eq_eq]

theorem Binary64.unitsPerOne_pos : 0 < unitsPerOne := by
  unfold unitsPerOne
  generalize 1074 = exponent
  exact Nat.two_pow_pos exponent

/-- Two numbers are in order `eq` if they lie in the same place of the line. -/
theorem Number.order?_eq_iff (a b : Number) :
    a.order? b = some .eq ↔ a.position?.isSome = true ∧ a.position? = b.position? := by
  have hplaces : (do
      let p ← a.position?
      let q ← b.position?
      return p.compare q : Option Ordering) = some .eq ↔ a.position?.isSome = true ∧ a.position? = b.position? := by
    cases a.position? <;> cases b.position? <;> simp [Binary64.Position.compare_eq_iff]
  cases a with
  | float x => exact hplaces
  | int m =>
    cases b with
    | float y => exact hplaces
    | int n =>
      -- the number of units is far too large to be computed with
      obtain ⟨unit, hunit, hposition⟩ : ∃ unit : Int, unit ≠ 0 ∧ ∀ n, (Number.int n).position? = some ⟨0, n * unit⟩ :=
        ⟨Binary64.unitsPerOne, Int.natCast_ne_zero.2 Binary64.unitsPerOne_pos.ne', fun _ => rfl⟩
      rw [hposition, hposition]
      simp [Number.order?, Int.mul_eq_mul_right_iff hunit]

namespace Value

/-! ## Equality by the form of a value -/

/-- Whether a value has parts that equality compares. -/
def isCompound : Value → Bool
  | .list .. | .vector .. | .map .. | .cell _ => true
  | _ => false

/-- What a value without parts is known by: a number by its place on the line, every other one by
itself. Functions and NaN are known by nothing. -/
def identity? : Value → Option (Binary64.Position ⊕ Value)
  | .int n => (Number.int n).position?.map .inl
  | .float x => (Number.float x).position?.map .inl
  | .nil => some (.inr .nil)
  | .bool b => some (.inr (.bool b))
  | .str text => some (.inr (.str text))
  | .symbol name => some (.inr (.symbol name))
  | .keyword name => some (.inr (.keyword name))
  | _ => none

theorem isCompound_of_identity? {v : Value} (h : v.identity?.isSome = true) : v.isCompound = false := by
  cases v with
  | list | vector | map | cell => cases h
  | _ => rfl

section ByForm

variable (cells : CellId → CellId → Bool)

theorem equalWith_scalar {a : Value} (h : a.isCompound = false) (b : Value) :
    equalWith cells a b = true ↔ a.identity?.isSome = true ∧ a.identity? = b.identity? := by
  have hnumbers : ∀ m n : Number, (m.order? n == some .eq) = true ↔
      (m.position?.map (Sum.inl (β := Value))).isSome = true ∧
        m.position?.map .inl = n.position?.map (Sum.inl (β := Value)) := by
    intro m n
    rw [beq_iff_eq, Number.order?_eq_iff]
    cases m.position? <;> cases n.position? <;> simp
  have hint : ∀ n, ∃ p, (Value.int n).identity? = some (.inl p) := fun n => ⟨_, rfl⟩
  cases a with
  | list | vector | map | cell => cases h
  | int m =>
    cases b with
    | int n =>
      refine Iff.trans ?_ (hnumbers (.int m) (.int n))
      simp [equalWith, Number.order?]
    | float y => exact hnumbers (.int m) (.float y)
    | _ =>
      obtain ⟨p, hp⟩ := hint m
      rw [hp]
      simp [equalWith, identity?]
  | float x =>
    cases b with
    | int n => exact hnumbers (.float x) (.int n)
    | float y => exact hnumbers (.float x) (.float y)
    | _ => cases h : x.position? <;> simp [equalWith, identity?, Number.position?, h]
  | _ =>
    cases b with
    | int n =>
      obtain ⟨p, hp⟩ := hint n
      rw [hp]
      simp [equalWith, identity?]
    | _ => simp [equalWith, identity?, Number.position?]

theorem equalWith_sequence {a : Value} {as : List Value} (h : a.items? = some as) (b : Value) :
    equalWith cells a b = true ↔ ∃ bs, b.items? = some bs ∧ allEqualWith cells as bs = true := by
  cases a with
  | list | vector =>
    cases h
    cases b <;> simp [equalWith, items?]
  | _ => cases h

theorem equalWith_map (as : Entries) (info b : Value) :
    equalWith cells (.map as info) b = true ↔
      ∃ bs info', b = .map bs info' ∧ as.length = bs.length ∧ entriesWithin cells as bs = true := by
  cases b <;> simp [equalWith]

theorem equalWith_cell (id : CellId) (b : Value) :
    equalWith cells (.cell id) b = true ↔ ∃ other, b = .cell other ∧ cells id other = true := by
  cases b <;> simp [equalWith]

theorem allEqualWith_iff : ∀ as bs : List Value,
    allEqualWith cells as bs = true ↔ List.Forall₂ (fun a b => equalWith cells a b = true) as bs
  | [], [] => by simp [allEqualWith]
  | [], _ :: _ => by simp [allEqualWith]
  | _ :: _, [] => by simp [allEqualWith]
  | a :: as, b :: bs => by simp [allEqualWith, allEqualWith_iff as bs]

theorem entriesWithin_iff (as bs : List (Value × Value)) : entriesWithin cells as bs = true ↔
    ∀ entry ∈ as, ∃ found, bs.find? (fun other => equalWith cells entry.1 other.1) = some found ∧
      equalWith cells entry.2 found.2 = true := by
  induction as with
  | nil => simp [entriesWithin]
  | cons entry as ih =>
    obtain ⟨k, v⟩ := entry
    rw [entriesWithin, Bool.and_eq_true, ih, List.forall_mem_cons]
    refine and_congr ?_ Iff.rfl
    cases bs.find? fun other => equalWith cells k other.1 <;> simp

end ByForm

/-! ## Values whose maps have unequal keys -/

/-- The values whose maps have unequal keys, at every depth, and whose cells are cells of the store with
contents that come to an end. -/
inductive WellKeyed (cells : Array Value) : Value → Prop where
  | scalar {v : Value} (plain : v.isCompound = false) : WellKeyed cells v
  | list {items : List Value} (info : Value) (each : ∀ v ∈ items, WellKeyed cells v) :
    WellKeyed cells (.list items info)
  | vector {items : List Value} (info : Value) (each : ∀ v ∈ items, WellKeyed cells v) :
    WellKeyed cells (.vector items info)
  | map {entries : Entries} (info : Value) (keys : ∀ entry ∈ entries, WellKeyed cells entry.1)
    (values : ∀ entry ∈ entries, WellKeyed cells entry.2)
    (distinct : entries.Pairwise fun a b => equal cells a.1 b.1 = false) : WellKeyed cells (.map entries info)
  | cell {id : CellId} (known : id < cells.size) (content : WellKeyed cells (cells.getD id .nil)) :
    WellKeyed cells (.cell id)

variable {cells : Array Value}

theorem WellKeyed.settled {v : Value} (h : WellKeyed cells v) : ∀ id ∈ v.cellsIn, Settled cells cells.size id := by
  induction h with
  | @scalar v plain =>
    cases v with
    | list | vector | map | cell => cases plain
    | _ => intro id hid; cases hid
  | list info _ ih | vector info _ ih =>
    intro id hid
    obtain ⟨v, hv, hid⟩ := mem_cellsInAll.1 hid
    exact ih v hv id hid
  | map info _ _ _ ihk ihv =>
    intro id hid
    obtain ⟨entry, he, hid | hid⟩ := mem_cellsInEntries.1 hid
    · exact ihk entry he id hid
    · exact ihv entry he id hid
  | @cell id known _ ih =>
    intro id' hid
    obtain rfl := List.mem_singleton.1 hid
    have hsettled : Settled cells (cells.size + 1) id' := ⟨known, ih⟩
    exact hsettled.within_size

/-- A cell is equal to the cells with equal contents. -/
theorem WellKeyed.equal_cell {id : CellId} (h : WellKeyed cells (.cell id)) (b : Value) :
    equal cells (.cell id) b = true ↔
      ∃ other, b = .cell other ∧ equal cells (cells.getD id .nil) (cells.getD other .nil) = true := by
  have hcell := cellsEqual_size (h.settled id (List.mem_singleton_self id))
  unfold equal at hcell ⊢
  simp only [equalWith_cell, hcell]

theorem WellKeyed.items {b : Value} {bs : List Value} (h : WellKeyed cells b) (hb : b.items? = some bs) :
    ∀ v ∈ bs, WellKeyed cells v := by
  cases h with
  | @scalar v plain =>
    cases b with
    | list | vector => cases plain
    | _ => cases hb
  | list info each | vector info each =>
    cases hb
    exact each
  | map | cell => cases hb

theorem WellKeyed.content {id : CellId} (h : WellKeyed cells (.cell id)) : WellKeyed cells (cells.getD id .nil) := by
  cases h with
  | scalar plain => cases plain
  | cell _ content => exact content

/-- What is known of the entries of a map. -/
structure WellKeyedEntries (cells : Array Value) (entries : Entries) : Prop where
  keys : ∀ entry ∈ entries, WellKeyed cells entry.1
  values : ∀ entry ∈ entries, WellKeyed cells entry.2
  distinct : entries.Pairwise fun a b => equal cells a.1 b.1 = false

theorem WellKeyed.entries {entries : Entries} {info : Value} (h : WellKeyed cells (.map entries info)) :
    WellKeyedEntries cells entries := by
  cases h with
  | scalar plain => cases plain
  | map _ keys values distinct => exact ⟨keys, values, distinct⟩

/-- Entries with keys that are equal both ways are one entry. -/
theorem WellKeyedEntries.eq_of_equal {entries : Entries} (h : WellKeyedEntries cells entries) {a b : Value × Value}
    (ha : a ∈ entries) (hb : b ∈ entries) (hab : equal cells a.1 b.1 = true) (hba : equal cells b.1 a.1 = true) :
    a = b := by
  have hone : entries.Pairwise fun a b => equal cells a.1 b.1 = true → equal cells b.1 a.1 = true → a = b :=
    h.distinct.imp fun hne heq => absurd heq (by rw [hne]; exact Bool.false_ne_true)
  exact hone.forall_of_forall_of_flip (fun _ _ _ _ => rfl) (hone.imp fun h hba hab => (h hab hba).symm) ha hb hab hba

/-! ## The laws at one value -/

/-- The laws of equality at a value, for all that it is compared with. -/
structure Fair (cells : Array Value) (a : Value) : Prop where
  symm : ∀ {b}, WellKeyed cells b → equal cells a b = true → equal cells b a = true
  trans : ∀ {b c}, WellKeyed cells b → WellKeyed cells c → equal cells a b = true → equal cells b c = true →
    equal cells a c = true
  euclid : ∀ {b c}, WellKeyed cells b → WellKeyed cells c → equal cells a b = true → equal cells a c = true →
    equal cells b c = true

/-- The laws hold at every value that is equal to one at which they hold. -/
theorem Fair.of_equal {a b : Value} (h : Fair cells a) (hb : WellKeyed cells b) (hab : equal cells a b = true) :
    Fair cells b where
  symm hc hbc := h.euclid hc hb (h.trans hb hc hab hbc) hab
  trans hc hd hbc hcd := h.euclid hb hd hab (h.trans hc hd (h.trans hb hc hab hbc) hcd)
  euclid hc hd hbc hbd := h.euclid hc hd (h.trans hb hc hab hbc) (h.trans hb hd hab hbd)

theorem fair_scalar {a : Value} (ha : a.isCompound = false) : Fair cells a where
  symm _ hab := by
    obtain ⟨hsome, heq⟩ := (equalWith_scalar _ ha _).1 hab
    rw [heq] at hsome
    exact (equalWith_scalar _ (isCompound_of_identity? hsome) _).2 ⟨hsome, heq.symm⟩
  trans _ _ hab hbc := by
    obtain ⟨hsome, heq⟩ := (equalWith_scalar _ ha _).1 hab
    obtain ⟨-, heq'⟩ := (equalWith_scalar _ (isCompound_of_identity? (heq ▸ hsome)) _).1 hbc
    exact (equalWith_scalar _ ha _).2 ⟨hsome, heq.trans heq'⟩
  euclid _ _ hab hac := by
    obtain ⟨hsome, heq⟩ := (equalWith_scalar _ ha _).1 hab
    obtain ⟨-, heq'⟩ := (equalWith_scalar _ ha _).1 hac
    rw [heq] at hsome
    exact (equalWith_scalar _ (isCompound_of_identity? hsome) _).2 ⟨hsome, heq.symm.trans heq'⟩

/-! ### Sequences -/

/-- Two rows of values that are equal item by item. -/
abbrev AllEqual (cells : Array Value) : List Value → List Value → Prop :=
  List.Forall₂ fun a b => equal cells a b = true

theorem equal_sequence {a : Value} {as : List Value} (h : a.items? = some as) (b : Value) :
    equal cells a b = true ↔ ∃ bs, b.items? = some bs ∧ AllEqual cells as bs := by
  simp only [equal, equalWith_sequence _ h, allEqualWith_iff, AllEqual]

section Rows

variable {as bs cs : List Value}

theorem allEqual_symm (hab : AllEqual cells as bs) (has : ∀ a ∈ as, Fair cells a) (hbs : ∀ b ∈ bs, WellKeyed cells b) :
    AllEqual cells bs as := by
  induction hab with
  | nil => exact .nil
  | cons hhead _ ih =>
    obtain ⟨ha, has⟩ := List.forall_mem_cons.1 has
    obtain ⟨hb, hbs⟩ := List.forall_mem_cons.1 hbs
    exact .cons (ha.symm hb hhead) (ih has hbs)

theorem allEqual_trans (hab : AllEqual cells as bs) (hbc : AllEqual cells bs cs) (has : ∀ a ∈ as, Fair cells a)
    (hbs : ∀ b ∈ bs, WellKeyed cells b) (hcs : ∀ c ∈ cs, WellKeyed cells c) : AllEqual cells as cs := by
  induction hab generalizing cs with
  | nil => exact hbc
  | cons hhead _ ih =>
    cases hbc with
    | cons hhead' htail' =>
      obtain ⟨ha, has⟩ := List.forall_mem_cons.1 has
      obtain ⟨hb, hbs⟩ := List.forall_mem_cons.1 hbs
      obtain ⟨hc, hcs⟩ := List.forall_mem_cons.1 hcs
      exact .cons (ha.trans hb hc hhead hhead') (ih htail' has hbs hcs)

theorem allEqual_euclid (hab : AllEqual cells as bs) (hac : AllEqual cells as cs) (has : ∀ a ∈ as, Fair cells a)
    (hbs : ∀ b ∈ bs, WellKeyed cells b) (hcs : ∀ c ∈ cs, WellKeyed cells c) : AllEqual cells bs cs := by
  induction hab generalizing cs with
  | nil => exact hac
  | cons hhead _ ih =>
    cases hac with
    | cons hhead' htail' =>
      obtain ⟨ha, has⟩ := List.forall_mem_cons.1 has
      obtain ⟨hb, hbs⟩ := List.forall_mem_cons.1 hbs
      obtain ⟨hc, hcs⟩ := List.forall_mem_cons.1 hcs
      exact .cons (ha.euclid hb hc hhead hhead') (ih htail' has hbs hcs)

end Rows

theorem fair_sequence {a : Value} {as : List Value} (h : a.items? = some as) (each : ∀ v ∈ as, Fair cells v) :
    Fair cells a where
  symm hb hab := by
    obtain ⟨bs, hbs, hall⟩ := (equal_sequence h _).1 hab
    exact (equal_sequence hbs _).2 ⟨as, h, allEqual_symm hall each (hb.items hbs)⟩
  trans hb hc hab hbc := by
    obtain ⟨bs, hbs, hall⟩ := (equal_sequence h _).1 hab
    obtain ⟨cs, hcs, hall'⟩ := (equal_sequence hbs _).1 hbc
    exact (equal_sequence h _).2 ⟨cs, hcs, allEqual_trans hall hall' each (hb.items hbs) (hc.items hcs)⟩
  euclid hb hc hab hac := by
    obtain ⟨bs, hbs, hall⟩ := (equal_sequence h _).1 hab
    obtain ⟨cs, hcs, hall'⟩ := (equal_sequence h _).1 hac
    exact (equal_sequence hbs _).2 ⟨cs, hcs, allEqual_euclid hall hall' each (hb.items hbs) (hc.items hcs)⟩

/-! ### Maps -/

/-- If each of some things has a partner among equally many, and no two have the same, then all of those
are partners. -/
theorem partners_onto {α β : Type} {R : α → β → Prop} : ∀ {as : List α} {bs : List β}, as.length = bs.length →
    (∀ a ∈ as, ∃ b ∈ bs, R a b) → (as.Pairwise fun a a' => ∀ b ∈ bs, R a b → ¬R a' b) →
    ∀ b ∈ bs, ∃ a ∈ as, R a b
  | [], [], _, _, _ => fun b hb => absurd hb List.not_mem_nil
  | a :: as, bs, hlen, hpartner, honly => by
    obtain ⟨b₀, hb₀, hab₀⟩ := hpartner a (List.mem_cons_self ..)
    obtain ⟨honly₀, honly⟩ := List.pairwise_cons.1 honly
    -- without the partner of the first, the rest is a case of the same
    obtain ⟨before, after, rfl⟩ := List.append_of_mem hb₀
    have hsub : ∀ b ∈ before ++ after, b ∈ before ++ b₀ :: after := fun b hb => by
      simp only [List.mem_append, List.mem_cons] at hb ⊢
      exact hb.imp_right Or.inr
    have hrest : ∀ b ∈ before ++ after, ∃ a ∈ as, R a b := by
      refine partners_onto (by simp at hlen ⊢; omega) (fun a' ha' => ?_)
        (honly.imp fun hne b hb => hne b (hsub b hb))
      obtain ⟨b, hb, hab⟩ := hpartner a' (List.mem_cons_of_mem _ ha')
      have hne : b ≠ b₀ := by
        rintro rfl
        exact honly₀ a' ha' b hb₀ hab₀ hab
      refine ⟨b, ?_, hab⟩
      simp only [List.mem_append, List.mem_cons, hne, false_or] at hb ⊢
      exact hb
    intro b hb
    by_cases heq : b = b₀
    · exact ⟨a, List.mem_cons_self .., heq ▸ hab₀⟩
    · simp only [List.mem_append, List.mem_cons, heq, false_or] at hb
      obtain ⟨a', ha', hab⟩ := hrest b (List.mem_append.2 hb)
      exact ⟨a', List.mem_cons_of_mem _ ha', hab⟩

/-- Whether two entries have equal keys and equal values. -/
def EntryEqual (cells : Array Value) (a b : Value × Value) : Prop :=
  equal cells a.1 b.1 = true ∧ equal cells a.2 b.2 = true

section Entries

variable {as bs cs : List (Value × Value)}

/-- The entry of a key is the one entry with an equal key. -/
theorem find?_key {key : Value} (hkey : Fair cells key) (hbs : WellKeyedEntries cells bs) {entry : Value × Value}
    (hmem : entry ∈ bs) (heq : equal cells key entry.1 = true) :
    bs.find? (fun other => equal cells key other.1) = some entry := by
  cases hfind : bs.find? fun other => equal cells key other.1 with
  | none => exact absurd heq (List.find?_eq_none.1 hfind entry hmem)
  | some found =>
    have hfound := List.find?_some hfind
    have hmem' := List.mem_of_find?_eq_some hfind
    have hk := hbs.keys entry hmem
    have hk' := hbs.keys found hmem'
    rw [hbs.eq_of_equal hmem' hmem (hkey.euclid hk' hk hfound heq) (hkey.euclid hk hk' heq hfound)]

theorem equal_map_iff (has : ∀ entry ∈ as, Fair cells entry.1) (hbs : WellKeyedEntries cells bs) (info info' : Value) :
    equal cells (.map as info) (.map bs info') = true ↔
      as.length = bs.length ∧ ∀ a ∈ as, ∃ b ∈ bs, EntryEqual cells a b := by
  unfold equal
  rw [equalWith_map]
  constructor
  · rintro ⟨bs, _, hb, hlen, hwithin⟩
    cases hb
    refine ⟨hlen, fun a ha => ?_⟩
    obtain ⟨b, hfind, hvalue⟩ := (entriesWithin_iff _ _ _).1 hwithin a ha
    have hkey := List.find?_some (p := fun other : Value × Value => equal cells a.1 other.1) hfind
    exact ⟨b, List.mem_of_find?_eq_some hfind, hkey, hvalue⟩
  · rintro ⟨hlen, hcover⟩
    refine ⟨bs, info', rfl, hlen, (entriesWithin_iff _ _ _).2 fun a ha => ?_⟩
    obtain ⟨b, hb, hkey, hvalue⟩ := hcover a ha
    exact ⟨b, find?_key (has a ha) hbs hb hkey, hvalue⟩

section Equal

variable (hka : ∀ entry ∈ as, Fair cells entry.1) (has : WellKeyedEntries cells as)
  (hbs : WellKeyedEntries cells bs) (hlen : as.length = bs.length)
  (hcover : ∀ a ∈ as, ∃ b ∈ bs, EntryEqual cells a b)
include hka has hbs hlen hcover

/-- Equally many entries that are all found among others are all of those. -/
theorem covered : ∀ b ∈ bs, ∃ a ∈ as, EntryEqual cells a b := by
  refine partners_onto hlen hcover (has.distinct.imp_of_mem fun {a a'} ha ha' hne b hb hab hab' => ?_)
  have hk' := has.keys a' ha'
  have hkb := hbs.keys b hb
  have heq := (hka a ha).trans hkb hk' hab.1 ((hka a' ha').symm hkb hab'.1)
  rw [hne] at heq
  cases heq

theorem fair_keys_of_cover : ∀ b ∈ bs, Fair cells b.1 := by
  intro b hb
  obtain ⟨a, ha, hab⟩ := covered hka has hbs hlen hcover b hb
  exact (hka a ha).of_equal (hbs.keys b hb) hab.1

end Equal

theorem fair_map {info : Value} (has : WellKeyedEntries cells as) (hka : ∀ entry ∈ as, Fair cells entry.1)
    (hva : ∀ entry ∈ as, Fair cells entry.2) : Fair cells (.map as info) where
  symm {b} hb hab := by
    obtain ⟨bs, info', rfl, -⟩ := (equalWith_map _ _ _ _).1 hab
    have hbs := hb.entries
    obtain ⟨hlen, hcover⟩ := (equal_map_iff hka hbs info info').1 hab
    have hkb := fair_keys_of_cover hka has hbs hlen hcover
    refine (equal_map_iff hkb has info' info).2 ⟨hlen.symm, fun b hb => ?_⟩
    obtain ⟨a, ha, hkey, hvalue⟩ := covered hka has hbs hlen hcover b hb
    exact ⟨a, ha, (hka a ha).symm (hbs.keys b hb) hkey, (hva a ha).symm (hbs.values b hb) hvalue⟩
  trans {b c} hb hc hab hbc := by
    obtain ⟨bs, info', rfl, -⟩ := (equalWith_map _ _ _ _).1 hab
    obtain ⟨cs, info'', rfl, -⟩ := (equalWith_map _ _ _ _).1 hbc
    have hbs := hb.entries
    have hcs := hc.entries
    obtain ⟨hlen, hcover⟩ := (equal_map_iff hka hbs info info').1 hab
    have hkb := fair_keys_of_cover hka has hbs hlen hcover
    obtain ⟨hlen', hcover'⟩ := (equal_map_iff hkb hcs info' info'').1 hbc
    refine (equal_map_iff hka hcs info info'').2 ⟨hlen.trans hlen', fun a ha => ?_⟩
    obtain ⟨b, hb, hkey, hvalue⟩ := hcover a ha
    obtain ⟨c, hc, hkey', hvalue'⟩ := hcover' b hb
    exact ⟨c, hc, (hka a ha).trans (hbs.keys b hb) (hcs.keys c hc) hkey hkey',
      (hva a ha).trans (hbs.values b hb) (hcs.values c hc) hvalue hvalue'⟩
  euclid {b c} hb hc hab hac := by
    obtain ⟨bs, info', rfl, -⟩ := (equalWith_map _ _ _ _).1 hab
    obtain ⟨cs, info'', rfl, -⟩ := (equalWith_map _ _ _ _).1 hac
    have hbs := hb.entries
    have hcs := hc.entries
    obtain ⟨hlen, hcover⟩ := (equal_map_iff hka hbs info info').1 hab
    obtain ⟨hlen', hcover'⟩ := (equal_map_iff hka hcs info info'').1 hac
    have hkb := fair_keys_of_cover hka has hbs hlen hcover
    refine (equal_map_iff hkb hcs info' info'').2 ⟨hlen.symm.trans hlen', fun b hb => ?_⟩
    obtain ⟨a, ha, hkey, hvalue⟩ := covered hka has hbs hlen hcover b hb
    obtain ⟨c, hc, hkey', hvalue'⟩ := hcover' a ha
    exact ⟨c, hc, (hka a ha).euclid (hbs.keys b hb) (hcs.keys c hc) hkey hkey',
      (hva a ha).euclid (hbs.values b hb) (hcs.values c hc) hvalue hvalue'⟩

end Entries

/-! ### Cells -/

theorem fair_cell {id : CellId} (h : WellKeyed cells (.cell id)) (hcontent : Fair cells (cells.getD id .nil)) :
    Fair cells (.cell id) where
  symm hb hab := by
    obtain ⟨other, rfl, heq⟩ := (h.equal_cell _).1 hab
    exact (hb.equal_cell _).2 ⟨id, rfl, hcontent.symm hb.content heq⟩
  trans hb hc hab hbc := by
    obtain ⟨other, rfl, heq⟩ := (h.equal_cell _).1 hab
    obtain ⟨third, rfl, heq'⟩ := (hb.equal_cell _).1 hbc
    exact (h.equal_cell _).2 ⟨third, rfl, hcontent.trans hb.content hc.content heq heq'⟩
  euclid hb hc hab hac := by
    obtain ⟨other, rfl, heq⟩ := (h.equal_cell _).1 hab
    obtain ⟨third, rfl, heq'⟩ := (h.equal_cell _).1 hac
    exact (hb.equal_cell _).2 ⟨third, rfl, hcontent.euclid hb.content hc.content heq heq'⟩

/-! ### All values -/

theorem WellKeyed.fair {a : Value} (h : WellKeyed cells a) : Fair cells a := by
  induction h with
  | scalar plain => exact fair_scalar plain
  | list _ _ ih | vector _ _ ih => exact fair_sequence rfl ih
  | map info keys values distinct ihk ihv => exact fair_map ⟨keys, values, distinct⟩ ihk ihv
  | cell known content ih => exact fair_cell (.cell known content) ih

/-! ## Comparable values -/

/-- The values on which equality is an equivalence relation: there is no function and no NaN in them,
through whatever cells, the cells lie in no circle, and the keys of a map are unequal. -/
inductive Comparable (cells : Array Value) : Value → Prop where
  | nil : Comparable cells .nil
  | bool (b : Bool) : Comparable cells (.bool b)
  | int (n : Int) : Comparable cells (.int n)
  | float {x : Binary64} (number : x ≠ .nan) : Comparable cells (.float x)
  | str (text : String) : Comparable cells (.str text)
  | symbol (name : String) : Comparable cells (.symbol name)
  | keyword (name : String) : Comparable cells (.keyword name)
  | list {items : List Value} (info : Value) (each : ∀ v ∈ items, Comparable cells v) :
    Comparable cells (.list items info)
  | vector {items : List Value} (info : Value) (each : ∀ v ∈ items, Comparable cells v) :
    Comparable cells (.vector items info)
  | map {entries : Entries} (info : Value) (keys : ∀ entry ∈ entries, Comparable cells entry.1)
    (values : ∀ entry ∈ entries, Comparable cells entry.2)
    (distinct : entries.Pairwise fun a b => equal cells a.1 b.1 = false) : Comparable cells (.map entries info)
  | cell {id : CellId} (known : id < cells.size) (content : Comparable cells (cells.getD id .nil)) :
    Comparable cells (.cell id)

theorem Comparable.wellKeyed {v : Value} (h : Comparable cells v) : WellKeyed cells v := by
  induction h with
  | nil | bool | int | float | str | symbol | keyword => exact .scalar rfl
  | list info _ ih => exact .list info ih
  | vector info _ ih => exact .vector info ih
  | map info _ _ distinct ihk ihv => exact .map info ihk ihv distinct
  | cell known _ ih => exact .cell known ih

theorem Comparable.equal_self {v : Value} (h : Comparable cells v) : equal cells v v = true := by
  induction h with
  | nil | bool | int | str | symbol | keyword => exact (equalWith_scalar _ rfl _).2 ⟨rfl, rfl⟩
  | @float x number =>
    refine (equalWith_scalar _ rfl _).2 ⟨?_, rfl⟩
    cases x with
    | nan => exact absurd rfl number
    | infinite | finite => rfl
  | list _ _ ih | vector _ _ ih => exact (equal_sequence rfl _).2 ⟨_, rfl, List.forall₂_same.2 ih⟩
  | map info keys values distinct ihk ihv =>
    have hkeyed := (Comparable.map info keys values distinct).wellKeyed.entries
    exact (equal_map_iff (fun entry he => (hkeyed.keys entry he).fair) hkeyed _ _).2
      ⟨rfl, fun entry he => ⟨entry, he, ihk entry he, ihv entry he⟩⟩
  | cell known content ih => exact ((Comparable.cell known content).wellKeyed.equal_cell _).2 ⟨_, rfl, ih⟩

/-- The order in which the entries of a map were added does not matter. -/
theorem equal_map_of_perm {as bs : Entries} {info info' : Value} (has : Comparable cells (.map as info))
    (hbs : Comparable cells (.map bs info')) (hperm : as.Perm bs) :
      equal cells (.map as info) (.map bs info') = true := by
  have hkeyed := has.wellKeyed.entries
  refine (equal_map_iff (fun entry he => (hkeyed.keys entry he).fair) hbs.wellKeyed.entries _ _).2
    ⟨hperm.length_eq, fun entry he => ⟨entry, hperm.subset he, ?_⟩⟩
  cases has with
  | map _ keys values => exact ⟨(keys entry he).equal_self, (values entry he).equal_self⟩

/-! ## Kinds -/

/-- The kinds of values that equality tells apart. -/
inductive Kind where
  | nil | truth | number | text | symbol | keyword | sequence | map | cell
  deriving DecidableEq

/-- The kind of a value; functions are of none. -/
def kind? : Value → Option Kind
  | .nil => some .nil
  | .bool _ => some .truth
  | .int _ | .float _ => some .number
  | .str _ => some .text
  | .symbol _ => some .symbol
  | .keyword _ => some .keyword
  | .list .. | .vector .. => some .sequence
  | .map .. => some .map
  | .cell _ => some .cell
  | .closure .. | .primitive .. => none

/-- Only values of one kind are equal. -/
theorem kind?_of_equal {a b : Value} (h : equal cells a b = true) :
    ∃ kind, a.kind? = some kind ∧ b.kind? = some kind := by
  unfold equal at h
  cases a <;> cases b <;> simp [equalWith, kind?] at h ⊢

/-! ## The primitive -/

/-- All arguments are compared with the first only, which decides whether all are equal to each other. -/
theorem equals_eq (eval : Evaluator) (call : Caller) (frame : FrameId) {s : State} {args : List Value} (hne : args ≠ [])
    (h : ∀ v ∈ args, Comparable s.cells v) : Primitive.equals.run eval call frame args s =
      .value (.bool (decide (∀ a ∈ args, ∀ b ∈ args, equal s.cells a b = true))) s := by
  cases args with
  | nil => exact absurd rfl hne
  | cons first others =>
    show Outcome.value (Value.bool (others.all fun other => equal s.cells first other)) s = _
    congr 2
    rw [Bool.eq_iff_iff, List.all_eq_true, decide_eq_true_iff]
    have hfirst := (h first (List.mem_cons_self ..)).wellKeyed.fair
    constructor
    · intro hall a ha b hb
      have hto : ∀ v ∈ first :: others, equal s.cells first v = true :=
        List.forall_mem_cons.2 ⟨(h first (List.mem_cons_self ..)).equal_self, hall⟩
      exact hfirst.euclid (h a ha).wellKeyed (h b hb).wellKeyed (hto a ha) (hto b hb)
    · exact fun hall other hother => hall first (List.mem_cons_self ..) other (List.mem_cons_of_mem _ hother)

/-- On comparable values equality is an equivalence relation. Numbers are equal if they lie in the same
place of the line, lists and vectors if they are equal item by item, and maps whatever the order of
their entries; values of different kinds are never equal. Hence `=` decides whether all its arguments
are equal to each other, in whatever order they come. -/
theorem equal_isEquivalence (s : State) :
    (∀ a, Comparable s.cells a → equal s.cells a a = true) ∧
    (∀ a b, Comparable s.cells a → Comparable s.cells b → equal s.cells a b = true → equal s.cells b a = true) ∧
    (∀ a b c, Comparable s.cells a → Comparable s.cells b → Comparable s.cells c → equal s.cells a b = true →
      equal s.cells b c = true → equal s.cells a c = true) ∧
    (∀ a b m n, a.number? = some m → b.number? = some n →
      (equal s.cells a b = true ↔ m.position?.isSome = true ∧ m.position? = n.position?)) ∧
    (∀ a b as bs, a.items? = some as → b.items? = some bs →
      (equal s.cells a b = true ↔ List.Forall₂ (fun x y => equal s.cells x y = true) as bs)) ∧
    (∀ as bs info info', Comparable s.cells (.map as info) → Comparable s.cells (.map bs info') → as.Perm bs →
      equal s.cells (.map as info) (.map bs info') = true) ∧
    (∀ a b, equal s.cells a b = true → ∃ kind, a.kind? = some kind ∧ b.kind? = some kind) ∧
    ∀ eval call frame args, args ≠ [] → (∀ v ∈ args, Comparable s.cells v) →
      Primitive.equals.run eval call frame args s =
        .value (.bool (decide (∀ a ∈ args, ∀ b ∈ args, equal s.cells a b = true))) s ∧
      ∀ args', args'.Perm args →
        Primitive.equals.run eval call frame args' s = Primitive.equals.run eval call frame args s := by
  refine ⟨fun a ha => ha.equal_self, fun a b ha hb => ha.wellKeyed.fair.symm hb.wellKeyed,
    fun a b c ha hb hc => ha.wellKeyed.fair.trans hb.wellKeyed hc.wellKeyed, ?_, ?_,
    fun as bs info info' => equal_map_of_perm, fun a b => kind?_of_equal, ?_⟩
  · intro a b m n ha hb
    have hform : ∀ {v : Value} {n : Number}, v.number? = some n →
        v.isCompound = false ∧ v.identity? = n.position?.map .inl := by
      intro v n hv
      cases v <;> cases hv <;> exact ⟨rfl, rfl⟩
    unfold equal
    rw [equalWith_scalar _ (hform ha).1, (hform ha).2, (hform hb).2, Option.isSome_map]
    exact and_congr_right fun _ => (Option.map_injective Sum.inl_injective).eq_iff
  · intro a b as bs ha hb
    rw [equal_sequence ha, hb]
    simp
  · intro eval call frame args hne h
    refine ⟨equals_eq eval call frame hne h, fun args' hperm => ?_⟩
    have hmem : ∀ v, v ∈ args' ↔ v ∈ args := fun v => hperm.mem_iff
    have hne' : args' ≠ [] := by
      rintro rfl
      exact hne hperm.nil_eq.symm
    rw [equals_eq eval call frame hne h, equals_eq eval call frame hne' fun v hv => h v ((hmem v).1 hv)]
    simp only [hmem]

/-- A store whose two cells hold the same number, once as an integer and once as a double. -/
def twoCells : State := ⟨#[], #[.int 2, .float (Binary64.ofInt 2)], "", "", [], true, .tree [], 0, 0⟩

/-- Two maps of equal entries, added in different orders, that differ in every kind that may differ. -/
def twoMaps : List Value :=
  [.ofEntries [(.ofList [.int 1], .cell 0), (.keyword "k", .nil)],
    .ofEntries [(.keyword "k", .nil), (.ofVector [.float (Binary64.ofInt 1)], .cell 1)]]

theorem equal_isEquivalence_twoMaps : (∀ v ∈ twoMaps, Comparable twoCells.cells v) ∧
    (∀ a ∈ twoMaps, ∀ b ∈ twoMaps, equal twoCells.cells a b = true) ∧
    Primitive.equals.run (fun _ _ => Run.halt .steps) (fun _ _ _ => Run.halt .steps) rootFrame twoMaps twoCells =
      .value (.bool true) twoCells := by
  have hcell : ∀ id < 2, Comparable twoCells.cells (.cell id) := by
    intro id hid
    match id, hid with
    | 0, _ => exact .cell (by decide) (.int 2)
    | 1, _ => exact .cell (by decide) (.float (by decide +kernel))
  have hcomp : ∀ v ∈ twoMaps, Comparable twoCells.cells v := by
    simp only [twoMaps, List.forall_mem_cons, List.not_mem_nil, false_implies, implies_true, and_true]
    constructor
    · refine .map _ ?_ ?_ (by decide +kernel)
      · simp only [List.forall_mem_cons, List.not_mem_nil, false_implies, implies_true, and_true]
        exact ⟨.list _ (by simp [Comparable.int]), .keyword "k"⟩
      · simp only [List.forall_mem_cons, List.not_mem_nil, false_implies, implies_true, and_true]
        exact ⟨hcell 0 (by decide), .nil⟩
    · refine .map _ ?_ ?_ (by decide +kernel)
      · simp only [List.forall_mem_cons, List.not_mem_nil, false_implies, implies_true, and_true]
        exact ⟨.keyword "k", .vector _ (by simpa using Comparable.float (by decide +kernel))⟩
      · simp only [List.forall_mem_cons, List.not_mem_nil, false_implies, implies_true, and_true]
        exact ⟨.nil, hcell 1 (by decide)⟩
  obtain ⟨hrefl, hsymm, -, -, -, -, -, hprimitive⟩ := equal_isEquivalence twoCells
  have hall : ∀ a ∈ twoMaps, ∀ b ∈ twoMaps, equal twoCells.cells a b = true := by
    have hsame : equal twoCells.cells twoMaps[0] twoMaps[1] = true := by decide +kernel
    intro a ha b hb
    have hcases : ∀ v ∈ twoMaps, v = twoMaps[0] ∨ v = twoMaps[1] := by simp [twoMaps]
    rcases hcases a ha with rfl | rfl <;> rcases hcases b hb with rfl | rfl
    · exact hrefl _ (hcomp _ ha)
    · exact hsame
    · exact hsymm _ _ (hcomp _ hb) (hcomp _ ha) hsame
    · exact hrefl _ (hcomp _ ha)
  refine ⟨hcomp, hall, ?_⟩
  rw [(hprimitive _ _ _ twoMaps (by decide) hcomp).1, decide_eq_true hall]

end Value

end SmallLisp
