/-
Hashes refine equality. Equality and hashing go through values each in its own way: maps are compared entry by entry in
the order of one of them, and hashed as sets. That equal values hash alike goes therefore by the values that are equal
to one, all at once; the entries of equal maps are matched with each other, and so hash to the same codes in another
order. Main statement: `Hashing.refines_equal`.
-/
import Mathlib.Data.List.Perm.Subperm
import SmallLisp.Value.Hash
import SmallLisp.Proofs.Evaluation.MapLiteral
import SmallLisp.Proofs.Value.Lookup

namespace SmallLisp

open Value (WellKeyed WellKeyedEntries EntryEqual Fair equal)

/-- The entries of a map are, one by one, equal to those of an equal map in some order. -/
theorem Value.WellKeyedEntries.matched {cells : Array Value} {as bs : Entries} (hka : ∀ entry ∈ as, Fair cells entry.1)
    (has : WellKeyedEntries cells as) (hbs : WellKeyedEntries cells bs) (hlen : as.length = bs.length)
    (hcover : ∀ a ∈ as, ∃ b ∈ bs, EntryEqual cells a b) :
    ∃ bs' : Entries, bs'.Perm bs ∧ List.Forall₂ (EntryEqual cells) as bs' := by
  choose! partner hmem hequal using hcover
  -- no two entries have the same partner, since their keys would be equal
  have hnodup : (as.map partner).Nodup := List.pairwise_map.2 (has.distinct.imp_of_mem fun {a a'} ha ha' hne hsame => by
    have hkb := hbs.keys _ (hmem a ha)
    have heq := (hka a ha).trans hkb (has.keys a' ha') (hequal a ha).1
      ((hka a' ha').symm hkb (hsame ▸ (hequal a' ha').1))
    rw [hne] at heq
    cases heq)
  have hsub : as.map partner ⊆ bs := List.forall_mem_map.2 hmem
  exact ⟨as.map partner, (hnodup.subperm hsub).perm_of_length_le (by rw [List.length_map, hlen]),
    List.forall₂_map_right_iff.2 (List.forall₂_same.2 hequal)⟩

/-! ## What values are known by -/

/-- What is known by a place of the line is a number that lies there. -/
theorem Value.number?_of_identity? {v : Value} {place : Binary64.Position} (h : v.identity? = some (.inl place)) :
    ∃ n, v.number? = some n ∧ n.position? = some place := by
  have hplace : ∀ n : Number, n.position?.map (Sum.inl (β := Value)) = some (.inl place) → n.position? = some place :=
    fun n hn => Option.map_injective Sum.inl_injective hn
  cases v with
  | int n => exact ⟨.int n, rfl, hplace _ h⟩
  | float x => exact ⟨.float x, rfl, hplace _ h⟩
  | _ => cases h

/-- What is known by a value is that value. -/
theorem Value.eq_of_identity? {v known : Value} (h : v.identity? = some (.inr known)) : v = known := by
  have hplace : ∀ n : Number, n.position?.map (Sum.inl (β := Value)) ≠ some (.inr known) := fun n hn => by
    obtain ⟨_, -, hne⟩ := Option.map_eq_some_iff.1 hn
    cases hne
  cases v with
  | int n => exact absurd h (hplace (.int n))
  | float x => exact absurd h (hplace (.float x))
  | _ => cases h <;> rfl

/-! ## Literals -/

theorem Value.literal_of_parts_nil {v : Value} (h : v.parts = []) (hfunction : v.isFunction = false)
    (hfree : v.isImmutable = true) : v.Literal := ⟨sound_of_parts_nil h, hfunction, hfree⟩

theorem Value.literal_ofEntries {entries : Entries} (h : ∀ entry ∈ entries, entry.1.Literal ∧ entry.2.Literal)
    (hdistinct : entries.Distinct) : (Value.ofEntries entries).Literal where
  sound := sound_map.2 ⟨⟨fun entry he => ⟨(h entry he).1.sound, (h entry he).2.sound, (h entry he).1.admissible⟩,
    hdistinct⟩, sound_nil⟩
  admissible := ⟨rfl, entriesImmutable_iff_forall.2 fun entry he =>
    ⟨(h entry he).1.admissible.no_cell, (h entry he).2.admissible.no_cell⟩⟩

namespace Hashing

variable (hashing : Hashing)

/-! ## Values that have a hash -/

mutual

/-- The values that have a hash are those in which no cell occurs. -/
theorem isSome_hash? : ∀ v : Value, (hashing.hash? v).isSome = v.isImmutable
  | .list items _ | .vector items _ => by rw [hash?, Option.isSome_map, Value.isImmutable, isSome_hashAll? items]
  | .map entries _ => by rw [hash?, Option.isSome_map, Value.isImmutable, isSome_hashEntries? entries]
  | .nil | .bool _ | .int _ | .float _ | .str _ | .symbol _ | .keyword _ | .cell _ | .closure .. | .primitive .. => rfl
termination_by structural v => v

theorem isSome_hashAll? : ∀ vs : List Value, (hashing.hashAll? vs).isSome = Value.allImmutable vs
  | [] => rfl
  | v :: vs => by
    rw [hashAll?, Value.allImmutable, ← isSome_hash? v, ← isSome_hashAll? vs]
    cases hashing.hash? v <;> cases hashing.hashAll? vs <;> rfl
termination_by structural vs => vs

theorem isSome_hashEntries? : ∀ entries : Entries,
    (hashing.hashEntries? entries).isSome = Value.entriesImmutable entries
  | [] => rfl
  | (k, v) :: entries => by
    rw [hashEntries?, Value.entriesImmutable, ← isSome_hash? k, ← isSome_hash? v, ← isSome_hashEntries? entries]
    cases hashing.hash? k <;> cases hashing.hash? v <;> cases hashing.hashEntries? entries <;> rfl
termination_by structural entries => entries

end

/-! ## Equal values -/

theorem hashAll?_congr {as bs : List Value} (h : List.Forall₂ (fun a b => hashing.hash? a = hashing.hash? b) as bs) :
    hashing.hashAll? as = hashing.hashAll? bs := by
  induction h with
  | nil => rfl
  | cons hhead _ ih => rw [hashAll?, hashAll?, hhead, ih]

theorem hashEntries?_congr {as bs : Entries} (h : List.Forall₂ (fun a b =>
    hashing.hash? a.1 = hashing.hash? b.1 ∧ hashing.hash? a.2 = hashing.hash? b.2) as bs) :
    hashing.hashEntries? as = hashing.hashEntries? bs := by
  induction h with
  | nil => rfl
  | cons hhead _ ih => rw [hashEntries?, hashEntries?, hhead.1, hhead.2, ih]

theorem hashEntries?_cons {entry : Value × Value} {entries : Entries} {codes : List Int} :
    hashing.hashEntries? (entry :: entries) = some codes ↔
      ∃ key value rest, hashing.hash? entry.1 = some key ∧ hashing.hash? entry.2 = some value ∧
        hashing.hashEntries? entries = some rest ∧ hashing.row [key, value] :: rest = codes := by
  simp only [hashEntries?, bind, pure, Option.bind_eq_some_iff, Option.some.injEq, exists_and_left]

theorem hashEntries?_perm {as bs : Entries} (h : as.Perm bs) {codes : List Int}
    (has : hashing.hashEntries? as = some codes) : ∃ codes', hashing.hashEntries? bs = some codes' ∧
      codes.Perm codes' := by
  induction h generalizing codes with
  | nil => exact ⟨codes, has, .refl _⟩
  | cons entry _ ih =>
    obtain ⟨key, value, rest, hkey, hvalue, hrest, rfl⟩ := (hashing.hashEntries?_cons).1 has
    obtain ⟨rest', hrest', hperm⟩ := ih hrest
    exact ⟨_, (hashing.hashEntries?_cons).2 ⟨key, value, rest', hkey, hvalue, hrest', rfl⟩, hperm.cons _⟩
  | swap a b entries =>
    obtain ⟨key, value, _, hkey, hvalue, htail, rfl⟩ := (hashing.hashEntries?_cons).1 has
    obtain ⟨key', value', rest, hkey', hvalue', hrest, rfl⟩ := (hashing.hashEntries?_cons).1 htail
    exact ⟨_, (hashing.hashEntries?_cons).2 ⟨key', value', _, hkey', hvalue',
      (hashing.hashEntries?_cons).2 ⟨key, value, rest, hkey, hvalue, hrest, rfl⟩, rfl⟩, .swap _ _ _⟩
  | trans _ _ ih ih' =>
    obtain ⟨codes', hbs, hperm⟩ := ih has
    obtain ⟨codes'', hcs, hperm'⟩ := ih' hbs
    exact ⟨codes'', hcs, hperm.trans hperm'⟩

/-- A map hashes the same in whatever order its entries come. -/
theorem hash?_map_perm {as bs : Entries} (h : as.Perm bs) (info info' : Value) :
    hashing.hash? (.map as info) = hashing.hash? (.map bs info') := by
  rw [hash?, hash?]
  cases has : hashing.hashEntries? as with
  | some codes =>
    obtain ⟨codes', hbs, hperm⟩ := hashing.hashEntries?_perm h has
    rw [hbs, Option.map_some, Option.map_some, hashing.set_perm hperm]
  | none =>
    cases hbs : hashing.hashEntries? bs with
    | none => rfl
    | some codes =>
      obtain ⟨codes', has', -⟩ := hashing.hashEntries?_perm h.symm hbs
      rw [has] at has'
      cases has'

theorem hash?_sequence {v : Value} {items : List Value} (h : v.items? = some items) :
    hashing.hash? v = (hashing.hashAll? items).map hashing.row := by
  cases v with
  | list | vector =>
    cases h
    rfl
  | _ => cases h

theorem hash?_number {v : Value} {n : Number} (h : v.number? = some n) : hashing.hash? v = some (hashing.number n) := by
  cases v <;> cases h <;> rfl

/-- Values without parts that are known by the same hash alike. -/
theorem hash?_eq_of_identity? {a b : Value} (hsome : a.identity?.isSome = true) (heq : a.identity? = b.identity?) :
    hashing.hash? a = hashing.hash? b := by
  obtain ⟨known, ha⟩ := Option.isSome_iff_exists.1 hsome
  have hb : b.identity? = some known := heq.symm.trans ha
  cases known with
  | inl place =>
    obtain ⟨m, hm, hplace⟩ := Value.number?_of_identity? ha
    obtain ⟨n, hn, hplace'⟩ := Value.number?_of_identity? hb
    rw [hashing.hash?_number hm, hashing.hash?_number hn]
    exact congrArg some (hashing.number_congr ((Number.order?_eq_iff m n).2
      ⟨by rw [hplace]; rfl, hplace.trans hplace'.symm⟩))
  | inr v => rw [Value.eq_of_identity? ha, Value.eq_of_identity? hb]

/-- Equal values hash alike, and neither has a hash if the other has none. -/
theorem hash?_eq_of_equal {cells : Array Value} {a b : Value} (ha : WellKeyed cells a) (hb : WellKeyed cells b)
    (hab : equal cells a b = true) : hashing.hash? a = hashing.hash? b := by
  induction ha generalizing b with
  | scalar plain =>
    obtain ⟨hsome, heq⟩ := (Value.equalWith_scalar _ plain _).1 hab
    exact hashing.hash?_eq_of_identity? hsome heq
  | @list items info each ih | @vector items info each ih =>
    obtain ⟨bs, hbs, hall⟩ := (Value.equal_sequence rfl _).1 hab
    rw [hashing.hash?_sequence rfl, hashing.hash?_sequence hbs]
    refine congrArg _ (hashing.hashAll?_congr (List.forall₂_iff_zip.2 ⟨hall.length_eq, fun {x y} hxy => ?_⟩))
    obtain ⟨hx, hy⟩ := List.of_mem_zip hxy
    exact ih x hx (hb.items hbs y hy) (List.forall₂_zip hall hxy)
  | @map entries info keys values distinct ihk ihv =>
    obtain ⟨bs, info', rfl, -⟩ := (Value.equalWith_map _ _ _ _).1 hab
    have has : WellKeyedEntries cells entries := ⟨keys, values, distinct⟩
    have hka : ∀ entry ∈ entries, Fair cells entry.1 := fun entry he => (keys entry he).fair
    have hbs := hb.entries
    obtain ⟨hlen, hcover⟩ := (Value.equal_map_iff hka hbs info info').1 hab
    obtain ⟨bs', hperm, hmatched⟩ := has.matched hka hbs hlen hcover
    rw [← hashing.hash?_map_perm hperm info info', hash?, hash?]
    refine congrArg _ (hashing.hashEntries?_congr (List.forall₂_iff_zip.2 ⟨hmatched.length_eq, fun {x y} hxy => ?_⟩))
    obtain ⟨hx, hy⟩ := List.of_mem_zip hxy
    obtain ⟨hkey, hvalue⟩ := List.forall₂_zip hmatched hxy
    have hy' := hperm.subset hy
    exact ⟨ihk x hx (hbs.keys y hy') hkey, ihv x hx (hbs.values y hy') hvalue⟩
  | cell known content ih =>
    obtain ⟨other, rfl, -⟩ := (Value.equalWith_cell _ _ _).1 hab
    rfl

/-! ## Looking up -/

/-- If at most one item passes a test, then it is found in every row of items that has it. -/
theorem find?_eq_of_subset {α : Type} {p : α → Bool} {as bs : List α} (hsub : ∀ a ∈ as, a ∈ bs)
    (hall : ∀ b ∈ bs, p b = true → b ∈ as) (hone : {b ∈ bs | p b}.Subsingleton) : as.find? p = bs.find? p := by
  cases hfind : bs.find? p with
  | none => exact List.find?_eq_none.2 fun a ha => List.find?_eq_none.1 hfind a (hsub a ha)
  | some b =>
    have hmem := List.mem_of_find?_eq_some hfind
    have hb := List.find?_some hfind
    cases hother : as.find? p with
    | none => exact absurd hb (List.find?_eq_none.1 hother b (hall b hmem hb))
    | some a => rw [hone ⟨hsub a (List.mem_of_find?_eq_some hother), List.find?_some hother⟩ ⟨hmem, hb⟩]

section Looking

variable (cells : Array Value) {entries probed : Entries} {info key : Value} (hmap : (Value.map entries info).Sound)
  (hkey : key.Sound) (hfree : key.cellsIn = [])
include hmap hkey hfree

/-- Of the entries of a map, those that are equal to a key have its hash. -/
theorem hash?_eq_of_sameKey {entry : Value × Value} (he : entry ∈ entries) (hsame : entry.1.sameKey key = true) :
    hashing.hash? entry.1 = hashing.hash? key := by
  have hentry := (Value.sound_map.1 hmap).1.each entry he
  exact hashing.hash?_eq_of_equal (Value.wellKeyed_of_sound #[] entry.1 hentry.key hentry.admissible.no_cell)
    (Value.wellKeyed_of_sound #[] key hkey ((Value.isImmutable_iff key).2 hfree)) hsame

/-- A search that compares hashes first finds what a search through all entries finds, whatever it probes, if it misses
no entry whose key has the hash of what is looked up. -/
theorem lookup?_eq (hprobed : ∀ entry ∈ probed, entry ∈ entries)
    (hall : ∀ entry ∈ entries, hashing.hash? entry.1 = hashing.hash? key → entry ∈ probed) :
    hashing.lookup? cells probed key = some (List.find? (fun entry => equal cells entry.1 key) entries) := by
  have himmutable := (Value.isImmutable_iff key).2 hfree
  have hsound := (Value.sound_map.1 hmap).1
  have hequal : ∀ entry ∈ entries, equal cells entry.1 key = entry.1.sameKey key := fun entry he =>
    Value.equal_eq_sameKey (hsound.each entry he).admissible.no_cell cells key
  obtain ⟨code, hcode⟩ := Option.isSome_iff_exists.1 ((hashing.isSome_hash? key).trans himmutable)
  -- comparing the hashes first makes no difference
  have htest : ∀ entry ∈ probed, (hashing.hash? entry.1 == some code && equal cells entry.1 key) =
      entry.1.sameKey key := by
    intro entry he
    rw [hequal entry (hprobed entry he)]
    cases hsame : entry.1.sameKey key with
    | false => exact Bool.and_false _
    | true =>
      rw [hashing.hash?_eq_of_sameKey hmap hkey hfree (hprobed entry he) hsame, hcode, beq_self_eq_true, Bool.and_true]
  have hone : {entry ∈ entries | entry.1.sameKey key}.Subsingleton := fun _ ha _ hb =>
    hsound.distinct.eq_of_sameKey
      (fun entry he => Value.wellKeyed_of_sound #[] entry.1 (hsound.each entry he).key
        (hsound.each entry he).admissible.no_cell)
      (Value.wellKeyed_of_sound #[] key hkey himmutable) ha.1 ha.2 hb.1 hb.2
  have hfind : List.find? (fun entry => entry.1.sameKey key) probed =
      List.find? (fun entry => entry.1.sameKey key) entries :=
    find?_eq_of_subset hprobed
      (fun entry he hsame => hall entry he (hashing.hash?_eq_of_sameKey hmap hkey hfree he hsame)) hone
  rw [lookup?, hcode]
  refine congrArg some ?_
  rw [List.find?_congr htest, List.find?_congr hequal, hfind]

end Looking

/-! ## Main statement -/

/-- Equal values hash alike. A value has a hash exactly if no cell occurs in it, in its items, its keys and its values,
and that is what the check for keys demands of what is no function. Hence in a map as sessions have them, a search that
compares hashes first, and is free in what else it probes and in which order, finds the entry that a search through all
entries by equality finds, which is the one with the value that the map has under the key. -/
theorem refines_equal (hashing : Hashing) (cells : Array Value) :
    (∀ a b, WellKeyed cells a → WellKeyed cells b → equal cells a b = true → hashing.hash? a = hashing.hash? b) ∧
    (∀ v : Value, ((hashing.hash? v).isSome = true ↔ v.cellsIn = []) ∧
      (v.isFunction = false → ∀ name s, Run.requireKey name v s = .value () s ↔ (hashing.hash? v).isSome = true)) ∧
    ∀ (entries : Entries) (info key : Value), (Value.map entries info).Sound → key.Sound → key.cellsIn = [] →
      ∀ probed : Entries, (∀ entry ∈ probed, entry ∈ entries) →
        (∀ entry ∈ entries, hashing.hash? entry.1 = hashing.hash? key → entry ∈ probed) →
        hashing.lookup? cells probed key = some (List.find? (fun entry => equal cells entry.1 key) entries) ∧
        entries.find? key = (List.find? (fun entry => equal cells entry.1 key) entries).map (·.2) := by
  refine ⟨fun a b => hashing.hash?_eq_of_equal, fun v => ⟨?_, fun hv name s => ?_⟩,
    fun entries info key hmap hkey hfree probed hprobed hall =>
      ⟨hashing.lookup?_eq cells hmap hkey hfree hprobed hall, ?_⟩⟩
  · rw [isSome_hash?, Value.isImmutable_iff]
  · rw [isSome_hash?]
    exact ⟨fun haccepted => (admissible_of_requireKey haccepted).no_cell,
      fun hfree => congrFun (requireKey_of_admissible ⟨hv, hfree⟩ name) s⟩
  · have hsound := (Value.sound_map.1 hmap).1
    rw [Entries.find?, List.find?_congr fun entry he =>
      (Value.equal_eq_sameKey (hsound.each entry he).admissible.no_cell cells key).symm]

/-! ## Hashing into words -/

/-- The hash that a word stands for; instead of the word that is kept for failures there is another one. -/
def ofWord (word instead : UInt64) : Int := (if word = -1 then instead else word).toInt64.toInt

/-- Numbers are hashed modulo the prime `2 ^ 61 - 1`, in which `2 ^ -1074` is `2 ^ 24`. -/
def ofPlace (place : Binary64.Position) : Int :=
  if place.side = 0 then
    let code := place.units.sign * (place.units.natAbs * 2 ^ 24 % (2 ^ 61 - 1) : Nat)
    if code = -1 then -2 else code
  else place.side * 314159

/-- Rows are hashed in order. -/
def ofRow (codes : List Int) : Int :=
  let mix (acc : UInt64) (code : Int) : UInt64 :=
    let sum := acc + UInt64.ofInt code * 14029467366897019727
    (sum <<< 31 ||| sum >>> 33) * 11400714785074694791
  let start : UInt64 := 2870177450012600261
  ofWord (codes.foldl mix start + (UInt64.ofNat codes.length ^^^ start ^^^ (3527539 : UInt64))) 1546275796

/-- The word that a hash is spread to before it is joined with others. -/
def spread (code : Int) : UInt64 :=
  let word := UInt64.ofInt code
  (word ^^^ (89869747 : UInt64) ^^^ word <<< 16) * 3644798167

/-- Sets are hashed in no order. -/
def ofSet (codes : List Int) : Int :=
  let joined := codes.foldr (fun code acc => spread code ^^^ acc) 0 ^^^ (UInt64.ofNat codes.length + 1) * 1927868237
  ofWord ((joined ^^^ joined >>> 11 ^^^ joined >>> 25) * 69069 + 907133923) 590923713

theorem ofSet_perm {codes codes' : List Int} (h : codes.Perm codes') : ofSet codes = ofSet codes' := by
  have hcomm : LeftCommutative fun (code : Int) (acc : UInt64) => spread code ^^^ acc :=
    ⟨fun a b acc => by rw [← UInt64.xor_assoc, ← UInt64.xor_assoc, UInt64.xor_comm (spread a)]⟩
  rw [ofSet, ofSet, h.foldr_eq, h.length_eq]

/-- Hashing into words of 64 bits. -/
def words : Hashing where
  nil := 8749412
  bool b := if b then 8749413 else 8749414
  number n := n.position?.elim 0 ofPlace
  text text := text.foldl (fun code c => code * 31 + c.toNat) 7
  function _ := 0
  row := ofRow
  set := ofSet
  number_congr {m n} h := by rw [((Number.order?_eq_iff m n).1 h).2]
  set_perm := ofSet_perm

/-- Entries one of whose keys is a row of rows and the other one a map. -/
def twoKeys : Entries :=
  [(.ofList [.int 1, .ofVector [.int 2]], .bool false), (.ofEntries [(.int 1, .nil), (.ofList [], .int 2)], .bool true)]

/-- The second one of these keys, with other numbers and other rows, and its entries in the other order. -/
def secondKey : Value := .ofEntries [(.ofVector [], .float (Binary64.ofInt 2)), (.float (Binary64.ofInt 1), .nil)]

theorem refines_equal_twoKeys :
    words.hash? (.ofEntries [(.int 1, .nil), (.ofList [], .int 2)]) = words.hash? secondKey ∧
      (∀ s, Run.requireKey "get" secondKey s = .value () s) ∧
      words.lookup? #[] twoKeys.reverse secondKey = some (some twoKeys[1]) ∧ twoKeys.find? secondKey =
        some (.bool true) := by
  have hone : (Value.ofEntries [(.int 1, .nil), (.ofList [], .int 2)]).Literal := Value.literal_ofEntries (by
    simpa using ⟨⟨Value.literal_of_parts_nil rfl rfl rfl, Value.literal_of_parts_nil rfl rfl rfl⟩,
      Value.literal_ofList (by simp), Value.literal_of_parts_nil rfl rfl rfl⟩) (by decide +kernel)
  have hother : secondKey.Literal := Value.literal_ofEntries (by
    simpa using ⟨⟨Value.literal_ofVector (by simp), Value.literal_of_parts_nil rfl rfl rfl⟩,
      Value.literal_of_parts_nil rfl rfl rfl, Value.literal_of_parts_nil rfl rfl rfl⟩) (by decide +kernel)
  have hrows : (Value.ofList [.int 1, .ofVector [.int 2]]).Literal := Value.literal_ofList (by
    simpa using ⟨Value.literal_of_parts_nil rfl rfl rfl, Value.literal_ofVector (by
      simpa using Value.literal_of_parts_nil rfl rfl rfl)⟩)
  have hmap : (Value.ofEntries twoKeys).Literal := Value.literal_ofEntries (by
    simpa [twoKeys] using ⟨⟨hrows, Value.literal_of_parts_nil rfl rfl rfl⟩, hone,
      Value.literal_of_parts_nil rfl rfl rfl⟩)
    (by decide +kernel)
  have hequal : equal #[] (.ofEntries [(.int 1, .nil), (.ofList [], .int 2)]) secondKey = true := by decide +kernel
  have hrow : equal #[] (.ofList [.int 1, .ofVector [.int 2]]) secondKey = false := by decide +kernel
  have hscan : List.find? (fun entry => equal #[] entry.1 secondKey) twoKeys = some twoKeys[1] := by
    simp [twoKeys, hequal, hrow]
  obtain ⟨hhash, hfree, hfind⟩ := refines_equal words #[]
  have hsecond : (words.hash? secondKey).isSome = true := (hfree secondKey).1.2 (by decide +kernel)
  obtain ⟨hlookup, hmodel⟩ := hfind twoKeys .nil secondKey hmap.sound hother.sound (by decide +kernel) twoKeys.reverse
    (fun entry he => List.mem_reverse.1 he) fun entry he _ => List.mem_reverse.2 he
  refine ⟨hhash _ _ (Value.wellKeyed_of_sound _ _ hone.sound hone.admissible.no_cell)
    (Value.wellKeyed_of_sound _ _ hother.sound hother.admissible.no_cell) hequal,
    fun s => ((hfree secondKey).2 rfl "get" s).2 hsecond, ?_, ?_⟩
  · rw [hlookup, hscan]
  · rw [hmodel, hscan]
    rfl

end Hashing

end SmallLisp
