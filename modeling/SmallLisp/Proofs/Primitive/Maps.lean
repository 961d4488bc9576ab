/-
The primitives of maps on plain keys. One call of `assoc` comes to the same map as a call for each of its pairs in
turn, and what `get`, `contains?` and `dissoc` make of it is told by the pairs. Main statement: `maps_associate`.
-/
import SmallLisp.Proofs.Evaluation.MapLiteral
import SmallLisp.Proofs.Value.Lookup

namespace SmallLisp

open Value (Plain inTurn)
open Entries (PlainKeys SameKeys SameEntries last? fresh)

/-! ## What the primitives come to -/

section Runs

variable (eval : Evaluator) (call : Caller) (frame : FrameId) (s : State) {entries new : Entries} {key : Value}
  (info : Value)

theorem newEntries_inTurn (hnew : new.PlainKeys) : Maps.newEntries frame (inTurn new) = pure (Entries.ofList new) := by
  have heven : ¬(inTurn new).length % 2 = 1 := by
    rw [Value.length_inTurn]
    omega
  rw [Maps.newEntries, if_neg heven, pairs_inTurn]
  show (new.forM fun entry => Run.requireKey "hash-map" entry.1) >>= (fun _ => pure (Entries.ofList new)) = _
  rw [forM_requireKey fun entry he => (hnew entry he).admissible, pure_bind]

theorem hashMap_run (hnew : new.PlainKeys) :
    Primitive.hashMap.run eval call frame (inTurn new) s = .value (.ofEntries (Entries.ofList new)) s := by
  show Maps.hashMap frame (inTurn new) s = _
  rw [Maps.hashMap, newEntries_inTurn frame hnew]
  rfl

theorem assoc_run (hdistinct : entries.Distinct) (h : entries.PlainKeys) (hnew : new.PlainKeys) :
    Primitive.assoc.run eval call frame (.map entries info :: inTurn new) s =
      .value (.ofEntries (entries.merge new)) s := by
  show (Maps.newEntries frame (inTurn new) >>= fun new => pure (Value.ofEntries (entries.merge new))) s = _
  rw [newEntries_inTurn frame hnew, pure_bind, Entries.merge_ofList hdistinct h hnew]
  rfl

theorem get_run (hkey : key.Plain) :
    Primitive.get.run eval call frame [.map entries info, key] s = .value ((entries.find? key).getD .nil) s := by
  show (Run.requireKey "get" key >>= fun _ => pure ((entries.find? key).getD .nil)) s = _
  rw [requireKey_of_admissible hkey.admissible]
  rfl

theorem contains_run (hkey : key.Plain) :
    Primitive.contains.run eval call frame [.map entries info, key] s =
      .value (.bool (entries.find? key).isSome) s := by
  show (Run.requireKey "contains?" key >>= fun _ => pure (Value.bool (entries.contains key))) s = _
  rw [requireKey_of_admissible hkey.admissible]
  rfl

theorem eraseKeys_eq (hdistinct : entries.Distinct) (h : entries.PlainKeys) {keys : List Value}
    (hkeys : ∀ key ∈ keys, key.Plain) :
    Maps.eraseKeys entries keys = pure (entries.filter fun entry => !keys.any fun key => entry.1.sameKey key) := by
  induction keys generalizing entries with
  | nil =>
    rw [Maps.eraseKeys]
    exact congrArg _ (List.filter_eq_self.2 fun _ _ => rfl).symm
  | cons key keys ih =>
    obtain ⟨hkey, hkeys⟩ := List.forall_mem_cons.1 hkeys
    have hsub := Entries.erase_sublist key entries
    rw [Maps.eraseKeys, requireKey_of_admissible hkey.admissible, pure_bind,
      ih (hdistinct.sublist hsub) (fun entry he => h entry (hsub.subset he)) hkeys,
      Entries.erase_eq_filter hdistinct h hkey, List.filter_filter]
    simp only [List.any_cons, Bool.not_or, Bool.and_comm]

theorem dissoc_run (hdistinct : entries.Distinct) (h : entries.PlainKeys) {keys : List Value}
    (hkeys : ∀ key ∈ keys, key.Plain) : Primitive.dissoc.run eval call frame (.map entries info :: keys) s =
      .value (.ofEntries (entries.filter fun entry => !keys.any fun key => entry.1.sameKey key)) s := by
  show (Maps.eraseKeys entries keys >>= fun entries => pure (Value.ofEntries entries)) s = _
  rw [eraseKeys_eq hdistinct h hkeys]
  rfl

/-- Pairs that are added one call after the other come to what they come to in one call. -/
theorem assoc_foldlM (hdistinct : entries.Distinct) (h : entries.PlainKeys) (hnew : new.PlainKeys) :
    ∃ info', new.foldlM (fun m entry => Primitive.assoc.run eval call frame [m, entry.1, entry.2])
      (.map entries info) s =
      .value (.map (entries.merge new) info') s := by
  induction new generalizing entries info with
  | nil => exact ⟨info, rfl⟩
  | cons entry new ih =>
    obtain ⟨hentry, hnew⟩ := List.forall_mem_cons.1 hnew
    have hsingle : PlainKeys [entry] := List.forall_mem_singleton.2 hentry
    have hone : Primitive.assoc.run eval call frame [.map entries info, entry.1, entry.2] s =
        .value (.ofEntries (entries.insert entry.1 entry.2)) s := assoc_run eval call frame s info hdistinct h hsingle
    rw [List.foldlM_cons, Run.bind_of_value hone]
    exact ih .nil (hdistinct.insert _ _) (h.insert hentry _) hnew

/-- The keys and the values of a map are those of its entries in order, and taken in turn they make the map again. -/
theorem keys_vals_run (hdistinct : entries.Distinct) (h : entries.PlainKeys) :
    Primitive.keys.run eval call frame [.map entries info] s = .value (.ofList (entries.map (·.1))) s ∧
    Primitive.vals.run eval call frame [.map entries info] s = .value (.ofList (entries.map (·.2))) s ∧
    Primitive.hashMap.run eval call frame (inTurn ((entries.map (·.1)).zip (entries.map (·.2)))) s =
      .value (.ofEntries entries) s := by
  have hzip : (entries.map (·.1)).zip (entries.map (·.2)) = entries := by
    rw [List.zip_map']
    exact List.map_id entries
  refine ⟨rfl, rfl, ?_⟩
  rw [hzip, hashMap_run eval call frame s h, Entries.ofList_of_distinct hdistinct]

/-! ## Keys that are the same -/

variable {new' : Entries}

/-- Of pairs with the same keys the ones make what the others make, but for the keys of the entries that are new. -/
theorem assoc_run_congr (hdistinct : entries.Distinct) (h : entries.PlainKeys) (hnew : new.PlainKeys)
    (hnew' : new'.PlainKeys) (hsame : SameEntries new new') : ∃ kept added added',
      Primitive.assoc.run eval call frame (.map entries info :: inTurn new) s = .value (.ofEntries (kept ++ added)) s ∧
      Primitive.assoc.run eval call frame (.map entries info :: inTurn new') s =
        .value (.ofEntries (kept ++ added')) s ∧
      kept.map (·.1) = entries.map (·.1) ∧ SameEntries added added' := by
  have hkeys : SameKeys (new.map (·.1)) (new'.map (·.1)) :=
    List.forall₂_map_left_iff.2 (List.forall₂_map_right_iff.2 (hsame.imp fun _ _ hentry => hentry.1))
  have hfresh := Entries.fresh_congr hkeys hnew.keys hnew'.keys h.keys fun _ _ => rfl
  -- the values under the old keys are the same
  have hkept : (entries.map (·.1)).map (fun key => (key, entries.valueAfter new' key)) =
      (entries.map (·.1)).map fun key => (key, entries.valueAfter new key) :=
    List.map_congr_left fun key hkey => by
      rw [Entries.valueAfter_congr h hnew hnew' hsame (h.keys key hkey) (h.keys key hkey)
        (h.keys key hkey).sameKey_self]
  refine ⟨(entries.map (·.1)).map fun key => (key, entries.valueAfter new key),
    (fresh (entries.map (·.1)) (new.map (·.1))).map fun key => (key, entries.valueAfter new key),
    (fresh (entries.map (·.1)) (new'.map (·.1))).map fun key => (key, entries.valueAfter new' key), ?_, ?_, ?_, ?_⟩
  · rw [assoc_run eval call frame s info hdistinct h hnew, Entries.merge_eq hdistinct h hnew, List.map_append]
  · rw [assoc_run eval call frame s info hdistinct h hnew', Entries.merge_eq hdistinct h hnew', List.map_append, hkept]
  · rw [List.map_map]
    exact List.map_id _
  · refine List.forall₂_map_left_iff.2 (List.forall₂_map_right_iff.2 (hfresh.imp fun k k' hkk => ⟨hkk.2, ?_⟩))
    exact Entries.valueAfter_congr h hnew hnew' hsame hkk.1.1 hkk.1.2 hkk.2

theorem dissoc_run_congr (hdistinct : entries.Distinct) (h : entries.PlainKeys) {keys keys' : List Value}
    (hkeys : ∀ key ∈ keys, key.Plain) (hkeys' : ∀ key ∈ keys', key.Plain) (hsame : SameKeys keys keys') :
    Primitive.dissoc.run eval call frame (.map entries info :: keys) s =
      Primitive.dissoc.run eval call frame (.map entries info :: keys') s := by
  rw [dissoc_run eval call frame s info hdistinct h hkeys, dissoc_run eval call frame s info hdistinct h hkeys']
  refine congrArg (fun entries => Outcome.value (Value.ofEntries entries) s) (List.filter_congr fun entry he => ?_)
  congr 1
  induction hsame with
  | nil => rfl
  | @cons key key' keys keys' hkk _ ih =>
    obtain ⟨hkey, hkeys⟩ := List.forall_mem_cons.1 hkeys
    obtain ⟨hkey', hkeys'⟩ := List.forall_mem_cons.1 hkeys'
    rw [List.any_cons, List.any_cons, ih hkeys hkeys', hkey.sameKey_congr_right hkey' (h entry he) hkk]

/-- A map with new pairs is looked up by the last pair with the key, and by the old map if there is none. -/
theorem lookup_run_merge (h : entries.PlainKeys) (hnew : new.PlainKeys) (hkey : key.Plain) :
    Primitive.get.run eval call frame [.ofEntries (entries.merge new), key] s = (match new.last? key with
      | some value => .value value s
      | none => Primitive.get.run eval call frame [.map entries info, key] s) ∧
    Primitive.contains.run eval call frame [.ofEntries (entries.merge new), key] s = (match new.last? key with
      | some _ => .value (.bool true) s
      | none => Primitive.contains.run eval call frame [.map entries info, key] s) := by
  rw [Value.ofEntries, get_run eval call frame s _ hkey, get_run eval call frame s info hkey,
    contains_run eval call frame s _ hkey, contains_run eval call frame s info hkey, Entries.find?_merge h hnew hkey]
  cases new.last? key <;> exact ⟨rfl, rfl⟩

end Runs

/-! ## Main statement -/

/-- The laws of maps whose keys are plain. A call of `assoc` comes to a map in which the old keys keep their places and
new ones follow in the order in which they first occur, each with the value of the last pair that has the key; that is
what a call for each pair in turn comes to, and `get` and `contains?` find the last pair or else what was there.
`dissoc` removes the entries that have one of the keys and no others, `keys` and `vals` list the entries in order and
make the map again, and one of two equal keys is as good as the other, but for being the key of a new entry. -/
theorem maps_associate (eval : Evaluator) (call : Caller) (frame : FrameId) (s : State) {entries new : Entries}
    (info : Value)
    (hdistinct : entries.Distinct) (h : entries.PlainKeys) (hnew : new.PlainKeys) :
    (∀ a b : Value, a.Plain → a.sameKey b = Value.equal s.cells a b) ∧
    (∃ after, Primitive.assoc.run eval call frame (.map entries info :: inTurn new) s = .value (.ofEntries after) s ∧
      after = ((entries.map (·.1) ++ fresh (entries.map (·.1)) (new.map (·.1))).map fun key =>
        (key, entries.valueAfter new key)) ∧
      (∃ info', new.foldlM (fun m entry => Primitive.assoc.run eval call frame [m, entry.1, entry.2])
        (.map entries info) s =
        .value (.map after info') s) ∧
      ∀ key, key.Plain →
        Primitive.get.run eval call frame [.ofEntries after, key] s = (match new.last? key with
          | some value => .value value s
          | none => Primitive.get.run eval call frame [.map entries info, key] s) ∧
        Primitive.contains.run eval call frame [.ofEntries after, key] s = (match new.last? key with
          | some _ => .value (.bool true) s
          | none => Primitive.contains.run eval call frame [.map entries info, key] s)) ∧
    (∀ keys, (∀ key ∈ keys, key.Plain) → Primitive.dissoc.run eval call frame (.map entries info :: keys) s =
      .value (.ofEntries (entries.filter fun entry => !keys.any fun key => entry.1.sameKey key)) s) ∧
    (Primitive.keys.run eval call frame [.map entries info] s = .value (.ofList (entries.map (·.1))) s ∧
      Primitive.vals.run eval call frame [.map entries info] s = .value (.ofList (entries.map (·.2))) s ∧
      Primitive.hashMap.run eval call frame (inTurn ((entries.map (·.1)).zip (entries.map (·.2)))) s =
        .value (.ofEntries entries) s) ∧
    (∀ key key', key.Plain → key'.Plain → key.sameKey key' = true →
      Primitive.get.run eval call frame [.map entries info, key] s =
        Primitive.get.run eval call frame [.map entries info, key'] s ∧
      Primitive.contains.run eval call frame [.map entries info, key] s =
        Primitive.contains.run eval call frame [.map entries info, key'] s) ∧
    (∀ keys keys', (∀ key ∈ keys, key.Plain) → (∀ key ∈ keys', key.Plain) → SameKeys keys keys' →
      Primitive.dissoc.run eval call frame (.map entries info :: keys) s =
        Primitive.dissoc.run eval call frame (.map entries info :: keys') s) ∧
    ∀ new', PlainKeys new' → SameEntries new new' → ∃ kept added added',
      Primitive.assoc.run eval call frame (.map entries info :: inTurn new) s = .value (.ofEntries (kept ++ added)) s ∧
      Primitive.assoc.run eval call frame (.map entries info :: inTurn new') s =
        .value (.ofEntries (kept ++ added')) s ∧
      kept.map (·.1) = entries.map (·.1) ∧ SameEntries added added' := by
  refine ⟨fun a b ha => ha.sameKey_eq_equal s.cells b, ⟨entries.merge new, ?_, ?_, ?_, fun key hkey => ?_⟩,
    fun keys hkeys => dissoc_run eval call frame s info hdistinct h hkeys,
      keys_vals_run eval call frame s info hdistinct h,
    fun key key' hkey hkey' hsame => ?_, fun keys keys' hkeys hkeys' hsame => ?_, fun new' hnew' hsame => ?_⟩
  · exact assoc_run eval call frame s info hdistinct h hnew
  · exact Entries.merge_eq hdistinct h hnew
  · exact assoc_foldlM eval call frame s info hdistinct h hnew
  · exact lookup_run_merge eval call frame s info h hnew hkey
  · rw [get_run eval call frame s info hkey, get_run eval call frame s info hkey',
      contains_run eval call frame s info hkey,
      contains_run eval call frame s info hkey', Entries.find?_congr h hkey hkey' hsame]
    exact ⟨rfl, rfl⟩
  · exact dissoc_run_congr eval call frame s info hdistinct h hkeys hkeys' hsame
  · exact assoc_run_congr eval call frame s info hdistinct h hnew hnew' hsame

/-- A map with one entry, and pairs that have its key as a double, and another key as a list and as a vector. -/
def oneEntry : Entries := [(.int 1, .keyword "a")]

def threePairs : Entries :=
  [(.float (Binary64.ofInt 1), .keyword "b"), (.ofList [.int 1], .nil),
    (.ofVector [.float (Binary64.ofInt 1)], .keyword "c")]

theorem maps_associate_threePairs :
    let halt : Evaluator := fun _ _ => Run.halt .steps
    let s := State.initial [] (.tree []) "" true 0
    Primitive.assoc.run halt (fun _ _ _ => Run.halt .steps) rootFrame (.map oneEntry .nil :: inTurn threePairs) s =
        .value (.ofEntries [(.int 1, .keyword "b"), (.ofList [.int 1], .keyword "c")]) s ∧
      Primitive.dissoc.run halt (fun _ _ _ => Run.halt .steps) rootFrame
        [.map oneEntry .nil, .float (Binary64.ofInt 1)] s =
        .value (.ofEntries []) s := by
  intro halt s
  have hfloat : (Value.float (Binary64.ofInt 1)).Plain := .float (by decide +kernel)
  have hdistinct : oneEntry.Distinct := List.pairwise_singleton _ _
  have hold : oneEntry.PlainKeys := List.forall_mem_singleton.2 (.int 1)
  have hnew : threePairs.PlainKeys := by
    simp only [PlainKeys, threePairs, List.forall_mem_cons, List.not_mem_nil, false_implies, implies_true, and_true]
    exact ⟨hfloat, .list _ (List.forall_mem_singleton.2 (.int 1)), .vector _ (List.forall_mem_singleton.2 hfloat)⟩
  obtain ⟨-, ⟨after, hassoc, hafter, -⟩, hdissoc, -⟩ :=
    maps_associate halt (fun _ _ _ => Run.halt .steps) rootFrame s .nil hdistinct hold hnew
  -- the keys that are the same, and those that are not
  have hkeys : fresh (oneEntry.map (·.1)) (threePairs.map (·.1)) = [.ofList [.int 1]] := by
    have hnumber : (Value.int 1).sameKey (.float (Binary64.ofInt 1)) = true := by decide +kernel
    have hlist : (Value.int 1).sameKey (.ofList [.int 1]) = false := by decide +kernel
    have hvector : (Value.int 1).sameKey (.ofVector [.float (Binary64.ofInt 1)]) = false := by decide +kernel
    have hrow : (Value.ofList [.int 1]).sameKey (.ofVector [.float (Binary64.ofInt 1)]) = true := by decide +kernel
    simp [oneEntry, threePairs, fresh, hnumber, hlist, hvector, hrow]
  have hone : oneEntry.valueAfter threePairs (.int 1) = .keyword "b" := by
    have hnumber : (Value.float (Binary64.ofInt 1)).sameKey (.int 1) = true := by decide +kernel
    have hlist : (Value.ofList [.int 1]).sameKey (.int 1) = false := by decide +kernel
    have hvector : (Value.ofVector [.float (Binary64.ofInt 1)]).sameKey (.int 1) = false := by decide +kernel
    simp [threePairs, Entries.valueAfter, last?, hnumber, hlist, hvector]
  have hrow : oneEntry.valueAfter threePairs (.ofList [.int 1]) = .keyword "c" := by
    have hvector : (Value.ofVector [.float (Binary64.ofInt 1)]).sameKey (.ofList [.int 1]) = true := by decide +kernel
    simp [threePairs, Entries.valueAfter, last?, hvector]
  constructor
  · rw [hassoc, hafter, hkeys, oneEntry, List.map_singleton, List.singleton_append, List.map_cons, List.map_singleton,
      ← oneEntry, hone, hrow]
  · refine (hdissoc _ (List.forall_mem_singleton.2 hfloat)).trans ?_
    have hnumber : (Value.int 1).sameKey (.float (Binary64.ofInt 1)) = true := by decide +kernel
    simp [oneEntry, hnumber]

end SmallLisp
