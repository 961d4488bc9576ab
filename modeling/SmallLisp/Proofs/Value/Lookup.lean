/-
Lookup in maps. Among plain keys, which hold no function, NaN or cell, being the same key is an equivalence relation,
so that entries are found as well by one key as by another that is equal to it. Main statement: what a merger of
entries is, in order, with the key and the value of each entry (`Entries.merge_eq`).
-/
import Mathlib.Data.List.Find
import SmallLisp.Proofs.Session.Keys

namespace SmallLisp

namespace Value

/-! ## Plain keys -/

/-- Whether a value holds no function, NaN or cell, and the keys of the maps in it are different. -/
def Plain (v : Value) : Prop := Comparable #[] v

namespace Plain

variable {a b c : Value}

theorem sameKey_self (h : a.Plain) : a.sameKey a = true := h.equal_self

theorem sameKey_comm (ha : a.Plain) (hb : b.Plain) : a.sameKey b = b.sameKey a :=
  Bool.eq_iff_iff.2 ⟨ha.wellKeyed.fair.symm hb.wellKeyed, hb.wellKeyed.fair.symm ha.wellKeyed⟩

/-- Keys that are the same are the same as any other key. -/
theorem sameKey_congr (ha : a.Plain) (hb : b.Plain) (hc : c.Plain) (hab : a.sameKey b = true) :
    a.sameKey c = b.sameKey c :=
  Bool.eq_iff_iff.2 ⟨ha.wellKeyed.fair.euclid hb.wellKeyed hc.wellKeyed hab,
    ha.wellKeyed.fair.trans hb.wellKeyed hc.wellKeyed hab⟩

theorem sameKey_congr_right (ha : a.Plain) (hb : b.Plain) (hc : c.Plain) (hab : a.sameKey b = true) :
    c.sameKey a = c.sameKey b := by
  rw [hc.sameKey_comm ha, hc.sameKey_comm hb, ha.sameKey_congr hb hc hab]

theorem admissible (h : a.Plain) : a.Admissible where
  no_function := by cases h <;> rfl
  no_cell := by
    induction h with
    | list info _ ih | vector info _ ih => exact allImmutable_iff_forall.2 ih
    | map info _ _ _ ihk ihv => exact entriesImmutable_iff_forall.2 fun entry he => ⟨ihk entry he, ihv entry he⟩
    | cell known => exact absurd known (Nat.not_lt_zero _)
    | _ => rfl

/-- Over every store plain keys are the same if they are equal. -/
theorem sameKey_eq_equal (h : a.Plain) (cells : Array Value) (b : Value) : a.sameKey b = equal cells a b :=
  (equal_eq_sameKey h.admissible.no_cell cells b).symm

end Plain

end Value

open Value (Plain)

namespace Entries

/-! ## Entries with plain keys -/

/-- Whether all keys are plain. -/
def PlainKeys (entries : Entries) : Prop := ∀ entry ∈ entries, entry.1.Plain

/-- The value of the last entry under a key. -/
def last? (entries : Entries) (key : Value) : Option Value :=
  (entries.reverse.find? fun entry => entry.1.sameKey key).map (·.2)

/-- The keys of a row that are none of those seen and none of those before them. -/
def fresh : (seen keys : List Value) → List Value
  | _, [] => []
  | seen, key :: keys =>
    if seen.any (·.sameKey key) then fresh seen keys else key :: fresh (seen ++ [key]) keys

variable {entries new : Entries} {key value : Value}

theorem PlainKeys.insert (h : entries.PlainKeys) (hkey : key.Plain) (value : Value) :
    (Entries.insert key value entries).PlainKeys := by
  intro entry he
  rcases mem_insert he with rfl | ⟨old, hold, heq, -⟩
  · exact hkey
  · exact heq ▸ h old hold

theorem PlainKeys.merge (h : entries.PlainKeys) (hnew : new.PlainKeys) : (Entries.merge entries new).PlainKeys :=
  fun entry he => (forall_merge (Q := fun _ => True) (fun e he => ⟨h e he, trivial⟩)
    (fun e he => ⟨hnew e he, trivial⟩) entry he).1

/-- Of equal keys one finds what the other finds. -/
theorem find?_congr (h : entries.PlainKeys) {k k' : Value} (hk : k.Plain) (hk' : k'.Plain)
    (hsame : k.sameKey k' = true) : entries.find? k = entries.find? k' := by
  unfold Entries.find?
  rw [List.find?_congr fun entry he => hk.sameKey_congr_right hk' (h entry he) hsame]

theorem find?_insert (h : entries.PlainKeys) (hkey : key.Plain) {k : Value} (hk : k.Plain) (value : Value) :
    (Entries.insert key value entries).find? k = if key.sameKey k then some value else entries.find? k := by
  induction entries with
  | nil =>
    unfold Entries.insert Entries.find?
    rw [List.find?_singleton]
    cases key.sameKey k <;> rfl
  | cons entry entries ih =>
    obtain ⟨hentry, hentries⟩ := List.forall_mem_cons.1 h
    rw [Entries.insert]
    unfold Entries.find? at ih ⊢
    split
    · next hsame =>
      -- the first key stands for the one that is added
      rw [List.find?_cons, List.find?_cons, hentry.sameKey_congr hkey hk hsame]
      cases key.sameKey k <;> rfl
    · next hother =>
      rw [List.find?_cons, List.find?_cons]
      cases hfirst : entry.1.sameKey k with
      | false => exact ih hentries
      | true =>
        -- what is the same as the first key is not the same as the one that is added
        have hne : key.sameKey k = false := Bool.eq_false_iff.2 fun hsame =>
          hother ((hkey.sameKey_congr_right hk hentry hsame).trans hfirst)
        rw [hne]
        rfl

theorem last?_cons (entry : Value × Value) (entries : Entries) (key : Value) : last? (entry :: entries) key =
    (entries.last? key).or (if entry.1.sameKey key then some entry.2 else none) := by
  rw [last?, last?, List.reverse_cons, List.find?_append, List.find?_singleton]
  cases entries.reverse.find? fun entry => entry.1.sameKey key with
  | some found => rfl
  | none => cases entry.1.sameKey key <;> rfl

/-- In a merger the last one of the new entries counts. -/
theorem find?_merge (h : entries.PlainKeys) (hnew : new.PlainKeys) {k : Value} (hk : k.Plain) :
    (Entries.merge entries new).find? k = (new.last? k).or (entries.find? k) := by
  induction new generalizing entries with
  | nil => rfl
  | cons entry new ih =>
    obtain ⟨hentry, hnew⟩ := List.forall_mem_cons.1 hnew
    show (Entries.merge (Entries.insert entry.1 entry.2 entries) new).find? k = _
    rw [ih (h.insert hentry entry.2) hnew, find?_insert h hentry hk, last?_cons, Option.or_assoc]
    cases entry.1.sameKey k <;> rfl

/-! ## Keys in order -/

theorem keys_insert (entries : Entries) (key value : Value) : (Entries.insert key value entries).map (·.1) =
    entries.map (·.1) ++ if (entries.map (·.1)).any (·.sameKey key) then [] else [key] := by
  induction entries with
  | nil => rfl
  | cons entry entries ih =>
    rw [Entries.insert, List.map_cons, List.any_cons]
    cases entry.1.sameKey key with
    | true => rw [Bool.true_or, if_pos rfl, if_pos rfl, List.append_nil, List.map_cons]
    | false => rw [Bool.false_or, if_neg Bool.false_ne_true, List.map_cons, ih, List.cons_append]

/-- The keys that are there keep their places, and new ones follow in the order in which they first occur. -/
theorem keys_merge (entries new : Entries) : (Entries.merge entries new).map (·.1) =
    entries.map (·.1) ++ fresh (entries.map (·.1)) (new.map (·.1)) := by
  induction new generalizing entries with
  | nil => simp [Entries.merge, fresh]
  | cons entry new ih =>
    show (Entries.merge (Entries.insert entry.1 entry.2 entries) new).map (·.1) = _
    rw [ih, keys_insert, List.map_cons, fresh]
    split <;> simp

/-! ## Entries by their keys -/

/-- At most one entry has a key, whatever the functions in it. -/
theorem Distinct.eq_of_sameKey (hdistinct : entries.Distinct) (h : ∀ entry ∈ entries, Value.WellKeyed #[] entry.1)
    {k : Value} (hk : k.WellKeyed #[]) {a b : Value × Value} (ha : a ∈ entries) (hak : a.1.sameKey k = true)
    (hb : b ∈ entries) (hbk : b.1.sameKey k = true) : a = b := by
  have hab : a.1.sameKey b.1 = true := (h a ha).fair.trans hk (h b hb) hak ((h b hb).fair.symm hk hbk)
  have hba : b.1.sameKey a.1 = true := (h b hb).fair.trans hk (h a ha) hbk ((h a ha).fair.symm hk hak)
  have hone : entries.Pairwise fun a b => a.1.sameKey b.1 = true → b.1.sameKey a.1 = true → a = b :=
    hdistinct.imp fun hne hsame => absurd hsame (by rw [hne]; exact Bool.false_ne_true)
  exact hone.forall_of_forall_of_flip (fun _ _ _ _ => rfl) (hone.imp fun h hba hab => (h hab hba).symm) ha hb hab hba

section Distinct

variable (hdistinct : entries.Distinct) (h : entries.PlainKeys)
include hdistinct h

theorem Distinct.subsingleton {k : Value} (hk : k.Plain) : {entry ∈ entries | entry.1.sameKey k}.Subsingleton :=
  fun _ ha _ hb => hdistinct.eq_of_sameKey (fun entry he => (h entry he).wellKeyed) hk.wellKeyed ha.1 ha.2 hb.1 hb.2

/-- Each entry is found under its own key. -/
theorem Distinct.find?_key {entry : Value × Value} (he : entry ∈ entries) : entries.find? entry.1 = some entry.2 := by
  unfold Entries.find?
  have hself := (h entry he).sameKey_self
  cases hfind : List.find? (fun other => other.1.sameKey entry.1) entries with
  | none => exact absurd hself (List.find?_eq_none.1 hfind entry he)
  | some found =>
    have hfound := List.find?_some (p := fun other : Value × Value => other.1.sameKey entry.1) hfind
    rw [hdistinct.subsingleton h (h entry he) ⟨List.mem_of_find?_eq_some hfind, hfound⟩ ⟨he, hself⟩]
    rfl

theorem Distinct.last?_eq {k : Value} (hk : k.Plain) : entries.last? k = entries.find? k := by
  rw [last?, Entries.find?, List.find?_eq_find?_of_perm (List.reverse_perm entries).symm (hdistinct.subsingleton h hk)]

/-- The entries are told by their keys, in order, and what is found under these. -/
theorem Distinct.eq_map_keys : entries = (entries.map (·.1)).map fun key => (key, (entries.find? key).getD .nil) := by
  rw [List.map_map]
  refine (List.map_id _).symm.trans (List.map_congr_left fun entry he => ?_)
  show entry = (entry.1, (entries.find? entry.1).getD .nil)
  rw [hdistinct.find?_key h he]
  rfl

end Distinct

/-- The value that a key has after new entries are added: that of the last one of them, or else the old one. -/
def valueAfter (entries new : Entries) (key : Value) : Value := ((new.last? key).or (entries.find? key)).getD .nil

/-- A merger, entry by entry in order. -/
theorem merge_eq (hdistinct : entries.Distinct) (h : entries.PlainKeys) (hnew : new.PlainKeys) :
    Entries.merge entries new = (entries.map (·.1) ++ fresh (entries.map (·.1)) (new.map (·.1))).map fun key =>
      (key, entries.valueAfter new key) := by
  have hmerged := h.merge hnew
  rw [(hdistinct.merge new).eq_map_keys hmerged, ← keys_merge]
  refine List.map_congr_left fun key hkey => ?_
  obtain ⟨entry, he, rfl⟩ := List.mem_map.1 hkey
  rw [find?_merge h hnew (hmerged entry he)]
  rfl

/-! ## Entries that are merged twice -/

/-- Leaving out keys that are seen anyway makes no difference. -/
theorem fresh_fresh {keys : List Value} (hkeys : ∀ key ∈ keys, key.Plain) {seen seen' : List Value}
    (hseen : ∀ key ∈ seen, key.Plain)
    (hsub : ∀ key, key.Plain → seen'.any (·.sameKey key) = true → seen.any (·.sameKey key) = true) :
    fresh seen (fresh seen' keys) = fresh seen keys := by
  induction keys generalizing seen seen' with
  | nil => rfl
  | cons key keys ih =>
    obtain ⟨hkey, hkeys⟩ := List.forall_mem_cons.1 hkeys
    rw [fresh]
    cases hany' : seen'.any (·.sameKey key) with
    | true =>
      rw [if_pos rfl, fresh, if_pos (hsub key hkey hany')]
      exact ih hkeys hseen hsub
    | false =>
      rw [if_neg Bool.false_ne_true, fresh, fresh]
      cases hany : seen.any (·.sameKey key) with
      | true =>
        rw [if_pos rfl, if_pos rfl]
        refine ih hkeys hseen fun k hk hk' => ?_
        rw [List.any_append, Bool.or_eq_true] at hk'
        rcases hk' with hk' | hk'
        · exact hsub k hk hk'
        · -- a key that is the same as this one is seen with it
          obtain ⟨old, hold, hsame⟩ := List.any_eq_true.1 hany
          have hkk : key.sameKey k = true := by simpa using hk'
          exact List.any_eq_true.2 ⟨old, hold, (hkey.sameKey_congr_right hk (hseen old hold) hkk).symm.trans hsame⟩
      | false =>
        rw [if_neg Bool.false_ne_true, if_neg Bool.false_ne_true]
        refine congrArg _ (ih hkeys (fun k hk => ?_) fun k hk hk' => ?_)
        · rcases List.mem_append.1 hk with hk | hk
          · exact hseen k hk
          · exact List.mem_singleton.1 hk ▸ hkey
        · rw [List.any_append, Bool.or_eq_true] at hk' ⊢
          exact hk'.imp_left (hsub k hk)

theorem PlainKeys.keys (h : entries.PlainKeys) : ∀ key ∈ entries.map (·.1), key.Plain := List.forall_mem_map.2 h

theorem PlainKeys.ofList (hnew : new.PlainKeys) : (Entries.ofList new).PlainKeys :=
  PlainKeys.merge (fun _ h => absurd h List.not_mem_nil) hnew

/-- Making a map of new entries before they are added makes no difference. -/
theorem merge_ofList (hdistinct : entries.Distinct) (h : entries.PlainKeys) (hnew : new.PlainKeys) :
    Entries.merge entries (Entries.ofList new) = Entries.merge entries new := by
  have hempty : PlainKeys [] := fun _ h => absurd h List.not_mem_nil
  have hlast : ∀ key : Value, key.Plain → (Entries.ofList new).last? key = new.last? key := fun key hkey => by
    have hofList : (Entries.ofList new).Distinct := Distinct.merge .nil new
    rw [hofList.last?_eq hnew.ofList hkey]
    exact (find?_merge hempty hnew hkey).trans (Option.or_none ..)
  have hkeys : (Entries.ofList new).map (·.1) = fresh [] (new.map (·.1)) := keys_merge [] new
  rw [merge_eq hdistinct h hnew.ofList, merge_eq hdistinct h hnew, hkeys,
    fresh_fresh hnew.keys h.keys fun _ _ hany => by cases hany]
  refine List.map_congr_left fun key hkey => ?_
  have hplain : key.Plain := by
    have hmerged := (h.merge hnew).keys
    rw [keys_merge] at hmerged
    exact hmerged key hkey
  rw [valueAfter, valueAfter, hlast key hplain]

/-! ## Entries without some keys -/

theorem erase_eq_filter (hdistinct : entries.Distinct) (h : entries.PlainKeys) (hkey : key.Plain) :
    entries.erase key = entries.filter fun entry => !entry.1.sameKey key := by
  induction entries with
  | nil => rfl
  | cons entry entries ih =>
    obtain ⟨hentry, hentries⟩ := List.forall_mem_cons.1 h
    obtain ⟨hfirst, hdistinct⟩ := List.pairwise_cons.1 hdistinct
    rw [Entries.erase, List.filter_cons]
    cases hsame : entry.1.sameKey key with
    | false => rw [if_neg Bool.false_ne_true, Bool.not_false, if_pos rfl, ih hdistinct hentries]
    | true =>
      -- no other entry has the key
      rw [if_pos rfl, Bool.not_true, if_neg Bool.false_ne_true]
      refine (List.filter_eq_self.2 fun other hother => ?_).symm
      rw [Bool.not_eq_true', ← Bool.not_eq_true]
      intro hsame'
      have hboth := (hentries other hother).sameKey_congr_right hkey hentry hsame'
      rw [hfirst other hother, hsame] at hboth
      cases hboth

/-! ## Keys that are the same -/

/-- Whether keys are the same one by one. -/
abbrev SameKeys : List Value → List Value → Prop := List.Forall₂ fun k k' => k.sameKey k' = true

/-- Whether entries have the same keys and values one by one. -/
abbrev SameEntries : Entries → Entries → Prop :=
  List.Forall₂ fun entry entry' => entry.1.sameKey entry'.1 = true ∧ entry.2 = entry'.2

theorem last?_congr {new' : Entries} (hnew : new.PlainKeys) (hnew' : new'.PlainKeys) (hsame : SameEntries new new')
    {k k' : Value} (hk : k.Plain) (hk' : k'.Plain) (hkk : k.sameKey k' = true) : new.last? k = new'.last? k' := by
  induction hsame with
  | nil => rfl
  | @cons entry entry' new new' hentry _ ih =>
    obtain ⟨hplain, hnew⟩ := List.forall_mem_cons.1 hnew
    obtain ⟨hplain', hnew'⟩ := List.forall_mem_cons.1 hnew'
    rw [last?_cons, last?_cons, ih hnew hnew', hplain.sameKey_congr hplain' hk hentry.1,
      hk.sameKey_congr_right hk' hplain' hkk, hentry.2]

theorem valueAfter_congr (h : entries.PlainKeys) {new' : Entries} (hnew : new.PlainKeys) (hnew' : new'.PlainKeys)
    (hsame : SameEntries new new') {k k' : Value} (hk : k.Plain) (hk' : k'.Plain) (hkk : k.sameKey k' = true) :
    entries.valueAfter new k = entries.valueAfter new' k' := by
  rw [valueAfter, valueAfter, last?_congr hnew hnew' hsame hk hk' hkk, find?_congr h hk hk' hkk]

/-- Of keys that are the same one by one, the same ones are new. -/
theorem fresh_congr {keys keys' : List Value} (hsame : SameKeys keys keys') (hkeys : ∀ key ∈ keys, key.Plain)
    (hkeys' : ∀ key ∈ keys', key.Plain) {seen seen' : List Value} (hseen : ∀ key ∈ seen, key.Plain)
    (hany : ∀ key, key.Plain → seen.any (·.sameKey key) = seen'.any (·.sameKey key)) :
    List.Forall₂ (fun k k' => (k.Plain ∧ k'.Plain) ∧ k.sameKey k' = true) (fresh seen keys) (fresh seen' keys') := by
  induction hsame generalizing seen seen' with
  | nil => exact .nil
  | @cons key key' keys keys' hkk _ ih =>
    obtain ⟨hkey, hkeys⟩ := List.forall_mem_cons.1 hkeys
    obtain ⟨hkey', hkeys'⟩ := List.forall_mem_cons.1 hkeys'
    have hboth : seen.any (·.sameKey key) = seen'.any (·.sameKey key') := by
      rw [← hany key' hkey']
      rw [Bool.eq_iff_iff, List.any_eq_true, List.any_eq_true]
      refine exists_congr fun old => and_congr_right fun hold => ?_
      rw [hkey.sameKey_congr_right hkey' (hseen old hold) hkk]
    rw [fresh, fresh, hboth]
    split
    · exact ih hkeys hkeys' hseen hany
    · refine .cons ⟨⟨hkey, hkey'⟩, hkk⟩ (ih hkeys hkeys' (fun k hk => ?_) fun k hk => ?_)
      · rcases List.mem_append.1 hk with hk | hk
        · exact hseen k hk
        · exact List.mem_singleton.1 hk ▸ hkey
      · rw [List.any_append, List.any_append, hany k hk]
        simp only [List.any_cons, List.any_nil, Bool.or_false, hkey.sameKey_congr hkey' hk hkk]

end Entries

end SmallLisp
