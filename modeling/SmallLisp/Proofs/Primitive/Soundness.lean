/-
Primitives are safe: from sound arguments they make sound results. Those that build maps check every
key, those that look into values find sound ones there. Main statement: `primitive_run_safe`.
-/
import SmallLisp.Primitive.Dispatch
import SmallLisp.Proofs.Run.Soundness
import SmallLisp.Proofs.Source.Literals

namespace SmallLisp

open Run (Safe)
open Run.Safe
open Value (AllSound)

/-! ## Results -/

namespace Value

@[simp] theorem sound_int (n : Int) : (Value.int n).Sound := sound_of_parts_nil rfl

@[simp] theorem sound_cell (id : CellId) : (Value.cell id).Sound := sound_of_parts_nil rfl

theorem sound_toValue (n : Number) : n.toValue.Sound := by
  cases n <;> exact sound_of_parts_nil rfl

theorem sound_ofList {items : List Value} (h : AllSound items) : (ofList items).Sound := sound_list.2 ⟨h, sound_nil⟩

theorem sound_ofVector {items : List Value} (h : AllSound items) : (ofVector items).Sound :=
  sound_vector.2 ⟨h, sound_nil⟩

theorem sound_ofEntries {entries : Entries} (h : entries.Sound) : (ofEntries entries).Sound :=
  sound_map.2 ⟨h, sound_nil⟩

theorem AllSound.cons {v : Value} {vs : List Value} (hv : v.Sound) (hvs : AllSound vs) : AllSound (v :: vs) :=
  List.forall_mem_cons.2 ⟨hv, hvs⟩

theorem AllSound.append {vs ws : List Value} (hvs : AllSound vs) (hws : AllSound ws) : AllSound (vs ++ ws) :=
  fun v hv => (List.mem_append.1 hv).elim (hvs v) (hws v)

/-- Values that are all among sound ones are sound. -/
theorem AllSound.subset {vs ws : List Value} (h : AllSound ws) (hsub : vs ⊆ ws) : AllSound vs :=
  fun v hv => h v (hsub hv)

end Value

variable {files : Files} {frame : FrameId} {args : List Value}

/-! ## Arithmetic -/

theorem foldNumbers_fails {F : Fault → Prop} {op : Number → Number → Except Fault Number}
    (hop : ∀ a b, FailsOnly F (op a b)) : ∀ (total : Number) (ns : List Number),
    FailsOnly F (Arithmetic.foldNumbers op total ns)
  | _, [] => .ok _
  | total, n :: ns => (hop total n).bind fun total => foldNumbers_fails hop total ns

/-- A number that is computed is sound. -/
theorem computed_safe {x : Except Fault Number} (h : FailsOnly (Fault.Regular files) x) :
    Safe files (Number.toValue <$> Run.ofExcept x) Value.Sound :=
  .map ((ofExcept h).weaken fun n _ => Value.sound_toValue n)

theorem add_safe (args : List Value) : Safe files (Arithmetic.add frame args) Value.Sound :=
  .bind (numbers _ _) fun ns _ => computed_safe (foldNumbers_fails (Number.add_fails .doubleOverflow) _ ns)

theorem multiply_safe (args : List Value) : Safe files (Arithmetic.multiply frame args) Value.Sound :=
  .bind (numbers _ _) fun ns _ => computed_safe (foldNumbers_fails (Number.mul_fails .doubleOverflow) _ ns)

theorem subtract_safe (h : AllSound args) : Safe files (Arithmetic.subtract frame args) Value.Sound := by
  refine .bind (oneOrMore _ h) fun _ _ => .bind (numbers _ _) fun ns _ => ?_
  split
  · exact .fail (.arity _) _
  · exact .pure (Value.sound_toValue _)
  · exact computed_safe (foldNumbers_fails (Number.sub_fails .doubleOverflow) _ _)

theorem divide_safe (h : AllSound args) : Safe files (Arithmetic.divide frame args) Value.Sound := by
  have hdiv := Number.div_fails (F := Fault.Regular files) .doubleOverflow .divisionByZero
  refine .bind (oneOrMore _ h) fun _ _ => .bind (numbers _ _) fun ns _ => ?_
  split
  · exact .fail (.arity _) _
  · exact computed_safe (hdiv _ _)
  · exact computed_safe (foldNumbers_fails hdiv _ _)

theorem equals_safe (h : AllSound args) : Safe files (Arithmetic.equals frame args) Value.Sound :=
  .bind (oneOrMore _ h) fun _ _ => .ask (fun _ _ _ ha => Except.ok.inj ha ▸ Value.sound_bool _) fun _ => FailsOnly.ok _

/-! ## Maps -/

/-- New entries are those of a sound map, and every key that was given is admissible. -/
theorem newEntries_safe (h : AllSound args) : Safe files (Maps.newEntries frame args) Entries.Sound := by
  unfold Maps.newEntries
  split
  · exact failKind _ _
  · refine .bind (.forM fun entry _ => requireKey "hash-map" entry.1) fun _ hkeys => .pure ?_
    refine Entries.sound_ofList fun entry he => ?_
    obtain ⟨hk, hv⟩ := Entries.mem_of_mem_pairs he
    exact ⟨h _ hk, h _ hv, hkeys entry he⟩

theorem eraseKeys_safe : ∀ (keys : List Value) {entries : Entries}, entries.Sound →
    Safe files (Maps.eraseKeys entries keys) Entries.Sound
  | [], _, h => .pure h
  | key :: keys, _, h => .bind (requireKey "dissoc" key) fun _ _ => eraseKeys_safe keys (h.erase key)

theorem Entries.Sound.find? {entries : Entries} (h : entries.Sound) (key : Value) :
    ((entries.find? key).getD .nil).Sound := by
  cases hfind : entries.find? key with
  | none => exact Value.sound_nil
  | some value =>
    obtain ⟨entry, he, rfl⟩ := Entries.mem_of_find? hfind
    exact (h.each entry he).value

theorem Entries.Sound.keys {entries : Entries} (h : entries.Sound) : AllSound (entries.map (·.1)) := by
  intro key hkey
  obtain ⟨entry, he, rfl⟩ := List.mem_map.1 hkey
  exact (h.each entry he).key

theorem Entries.Sound.values {entries : Entries} (h : entries.Sound) : AllSound (entries.map (·.2)) := by
  intro value hvalue
  obtain ⟨entry, he, rfl⟩ := List.mem_map.1 hvalue
  exact (h.each entry he).value

theorem hashMap_safe (h : AllSound args) : Safe files (Maps.hashMap frame args) Value.Sound :=
  .bind (newEntries_safe h) fun _ hentries => .pure (Value.sound_ofEntries hentries)

theorem assoc_safe (h : AllSound args) : Safe files (Maps.assoc frame args) Value.Sound :=
  .bind (oneOrMore _ h) fun (_, _) ⟨hv, hrest⟩ => .bind (entries _ hv) fun _ hold =>
    .bind (newEntries_safe hrest) fun _ hnew => .pure (Value.sound_ofEntries (hold.merge hnew.each))

theorem dissoc_safe (h : AllSound args) : Safe files (Maps.dissoc frame args) Value.Sound :=
  .bind (oneOrMore _ h) fun (_, keys) ⟨hv, _⟩ => .bind (entries _ hv) fun _ hold =>
    .bind (eraseKeys_safe keys hold) fun _ hentries => .pure (Value.sound_ofEntries hentries)

theorem get_safe (h : AllSound args) : Safe files (Maps.get frame args) Value.Sound :=
  .bind (exactlyTwo _ h) fun (_, key) ⟨hv, _⟩ => .bind (entries _ hv) fun _ hentries =>
    .bind (requireKey _ _) fun _ _ => .pure (hentries.find? key)

theorem contains_safe (h : AllSound args) : Safe files (Maps.contains frame args) Value.Sound :=
  .bind (exactlyTwo _ h) fun (_, _) ⟨hv, _⟩ => .bind (requireKey _ _) fun _ _ =>
    .bind (entries _ hv) fun _ _ => .pure (Value.sound_bool _)

/-! ## Sequences -/

theorem count_safe (h : AllSound args) : Safe files (Sequences.count frame args) Value.Sound := by
  refine .bind (exactlyOne _ h) fun v hv => ?_
  split
  · exact .pure (Value.sound_int _)
  · exact .pure (Value.sound_int _)
  · exact .bind (sequence _ hv) fun _ _ => .pure (Value.sound_int _)

theorem cons_safe (h : AllSound args) : Safe files (Sequences.cons frame args) Value.Sound :=
  .bind (exactlyTwo _ h) fun (_, _) ⟨hhead, htail⟩ => .bind (sequence _ htail) fun _ hitems =>
    .pure (Value.sound_ofList (.cons hhead hitems))

theorem concat_safe (h : AllSound args) : Safe files (Sequences.concat frame args) Value.Sound := by
  refine .bind (.mapM fun v hv => sequence "concat" (h v hv)) fun sequences hsequences => .pure ?_
  refine Value.sound_ofList fun v hv => ?_
  obtain ⟨items, hitems, hv⟩ := List.mem_flatten.1 hv
  exact hsequences items hitems v hv

theorem isEmpty_safe (h : AllSound args) : Safe files (Sequences.isEmpty frame args) Value.Sound := by
  refine .bind (exactlyOne _ h) fun v hv => .bind (count_safe (List.forall_mem_singleton.2 hv)) fun n _ => ?_
  split <;> exact .pure (Value.sound_bool _)

theorem first_safe (h : AllSound args) : Safe files (Sequences.first frame args) Value.Sound := by
  refine .bind (exactlyOne _ h) fun v hv => .bind (sequence _ hv) fun items hitems => .pure ?_
  cases items with
  | nil => exact Value.sound_nil
  | cons item items => exact hitems item (List.mem_cons_self ..)

theorem rest_safe (h : AllSound args) : Safe files (Sequences.rest frame args) Value.Sound :=
  .bind (exactlyOne _ h) fun _ hv => .bind (sequence _ hv) fun items hitems =>
    .pure (Value.sound_ofList (hitems.subset (List.tail_sublist items).subset))

theorem nth_safe (h : AllSound args) : Safe files (Sequences.nth frame args) Value.Sound := by
  refine .bind (exactlyTwo _ h) fun (v, index) ⟨hv, _⟩ => .bind (sequence _ hv) fun items hitems => ?_
  split
  · split
    · exact .fail .indexOutOfRange _
    · split
      · next hitem => exact .pure (hitems _ (List.mem_of_getElem? hitem))
      · exact .fail .indexOutOfRange _
  · exact failKind _ _

theorem conj_safe (h : AllSound args) : Safe files (Sequences.conj frame args) Value.Sound := by
  refine .bind (oneOrMore _ h) fun (v, items) ⟨hv, hitems⟩ => ?_
  dsimp only at hv hitems ⊢
  split
  · exact .pure (Value.sound_ofVector ((Value.sound_vector.1 hv).1.append hitems))
  · exact .bind (sequence _ hv) fun old hold =>
      .pure (Value.sound_ofList (.append (fun v hv => hitems v (List.mem_reverse.1 hv)) hold))

theorem seq_safe (h : AllSound args) : Safe files (Sequences.seq frame args) Value.Sound := by
  refine .bind (exactlyOne _ h) fun v hv => ?_
  have hitems : ∀ items, AllSound items → (if items.isEmpty then Value.nil else .ofList items).Sound := by
    intro items hitems
    split
    · exact Value.sound_nil
    · exact Value.sound_ofList hitems
  split
  · refine .pure (hitems _ fun v hv => ?_)
    obtain ⟨c, _, rfl⟩ := List.mem_map.1 hv
    exact Value.sound_str _
  · exact .bind (sequence _ hv) fun items h => .pure (hitems items h)

/-! ## Texts -/

theorem symbol_safe (h : AllSound args) : Safe files (Texts.symbol frame args) Value.Sound := by
  refine .bind (exactlyOne _ h) fun v _ => ?_
  split
  · exact .pure (Value.sound_symbol _)
  · exact failKind _ _

theorem keyword_safe (h : AllSound args) : Safe files (Texts.keyword frame args) Value.Sound := by
  refine .bind (exactlyOne _ h) fun v _ => ?_
  split
  · exact .pure (Value.sound_of_parts_nil rfl)
  · exact .pure (Value.sound_of_parts_nil rfl)
  · exact failKind _ _

theorem readString_safe (h : AllSound args) : Safe files (Texts.readString frame args) Value.Sound := by
  refine .bind (exactlyOne _ h) fun v _ => ?_
  split
  · split
    · next form? hread =>
      cases form? with
      | none => exact .pure Value.sound_nil
      | some form => exact .pure (Source.read_literal hread).sound
    · exact .fail (.reading _) _
  · exact failKind _ _

theorem slurp_safe (h : AllSound args) : Safe files (Texts.slurp frame args) Value.Sound := by
  refine .bind (exactlyOne _ h) fun v _ => ?_
  split
  · exact .bind (readFile _) fun _ _ => .pure (Value.sound_str _)
  · exact failKind _ _

theorem readline_safe (h : AllSound args) : Safe files (Texts.readline frame args) Value.Sound := by
  refine .bind (exactlyOne _ h) fun v _ => .bind (plain _) fun _ _ => .bind (print _) fun _ _ =>
    .bind nextLine fun line _ => ?_
  split
  · exact .pure (Value.sound_str _)
  · exact .pure Value.sound_nil

/-! ## Cells, calls and metadata -/

theorem reset_safe (h : AllSound args) : Safe files (Cells.reset frame args) Value.Sound :=
  .bind (exactlyTwo _ h) fun (_, _) ⟨_, hcontent⟩ => .bind (requireCell _ _) fun id _ =>
    .bind (setContent id hcontent) fun _ _ => .pure hcontent

theorem setMeta_safe (h : AllSound args) : Safe files (Metadata.set frame args) Value.Sound := by
  refine .bind (exactlyTwo _ h) fun (v, info) ⟨hv, hinfo⟩ => ?_
  dsimp only at hv hinfo ⊢
  split
  · next hwith => exact .pure (hv.withInfo hinfo hwith)
  · exact failKind _ _

section Calls

variable {call : Caller} (hc : ∀ function args frame, function.Sound → AllSound args →
  Safe files (call function args frame) Value.Sound)
include hc

theorem swap_safe (h : AllSound args) : Safe files (Cells.swap call frame args) Value.Sound :=
  .bind (twoOrMore _ h) fun (_, _, _) ⟨_, hfunction, hextra⟩ =>
    .bind (requireCell _ _) fun id _ => .bind (content id) fun _ hold =>
      .bind (hc _ _ _ hfunction (.cons hold hextra)) fun _ hnew => .bind (setContent id hnew) fun _ _ => .pure hnew

theorem apply_safe (h : AllSound args) : Safe files (Calls.apply call frame args) Value.Sound := by
  refine .bind (twoOrMore _ h) fun (function, second, others) ⟨hfunction, hsecond, hothers⟩ => ?_
  -- the last argument and those before it are among those that were given
  have hgiven : AllSound (second :: others) := .cons hsecond hothers
  have hlast : ((second :: others).getLastD .nil).Sound := by
    rw [List.getLastD_cons]
    exact hgiven _ (List.getLastD_mem_cons ..)
  exact .bind (sequence _ hlast) fun last hlast =>
    hc _ _ _ hfunction (.append (hgiven.subset (List.dropLast_subset _)) hlast)

theorem map_safe (h : AllSound args) : Safe files (Calls.map call frame args) Value.Sound :=
  .bind (exactlyTwo _ h) fun (_, _) ⟨hfunction, hv⟩ => .bind (sequence _ hv) fun _ hitems =>
    .bind (.mapM fun item hi => hc _ _ _ hfunction (List.forall_mem_singleton.2 (hitems item hi))) fun _ hresults =>
      .pure (Value.sound_ofList hresults)

end Calls

/-! ## All primitives -/

/-- A primitive is safe if the functions that it calls and the evaluation in the root frame are. -/
theorem primitive_run_safe {eval : Evaluator} {call : Caller}
    (he : ∀ form, form.Sound → Safe files (eval form rootFrame) Value.Sound)
    (hc : ∀ function args frame, function.Sound → AllSound args → Safe files (call function args frame) Value.Sound)
    (p : Primitive) (h : AllSound args) : Safe files (p.run eval call frame args) Value.Sound := by
  cases p with dsimp only [Primitive.run]
  | add => exact add_safe args
  | subtract => exact subtract_safe h
  | multiply => exact multiply_safe args
  | divide => exact divide_safe h
  | equals => exact equals_safe h
  | compare c => exact .bind (oneOrMore _ h) fun _ _ => .bind (numbers _ _) fun _ _ => .pure (Value.sound_bool _)
  | query q => exact .bind (exactlyOne _ h) fun _ _ => .pure (Value.sound_bool _)
  | symbol => exact symbol_safe h
  | keyword => exact keyword_safe h
  | list => exact .pure (Value.sound_ofList h)
  | vector => exact .pure (Value.sound_ofVector h)
  | hashMap => exact hashMap_safe h
  | cons => exact cons_safe h
  | concat => exact concat_safe h
  | count => exact count_safe h
  | isEmpty => exact isEmpty_safe h
  | first => exact first_safe h
  | rest => exact rest_safe h
  | nth => exact nth_safe h
  | conj => exact conj_safe h
  | seq => exact seq_safe h
  | vec =>
    exact .bind (exactlyOne _ h) fun v hv => .bind (sequence _ hv) fun items hitems =>
      .pure (Value.sound_ofVector hitems)
  | apply => exact apply_safe hc h
  | map => exact map_safe hc h
  | assoc => exact assoc_safe h
  | dissoc => exact dissoc_safe h
  | get => exact get_safe h
  | contains => exact contains_safe h
  | keys =>
    exact .bind (exactlyOne _ h) fun v hv => .bind (entries _ hv) fun _ hentries =>
      .pure (Value.sound_ofList hentries.keys)
  | vals =>
    exact .bind (exactlyOne _ h) fun v hv => .bind (entries _ hv) fun _ hentries =>
      .pure (Value.sound_ofList hentries.values)
  | prStr => exact .bind (.mapM fun v _ => shown v) fun _ _ => .pure (Value.sound_str _)
  | str => exact .bind (.mapM fun v _ => plain v) fun _ _ => .pure (Value.sound_str _)
  | prn => exact .bind (.mapM fun v _ => shown v) fun _ _ => .bind (print _) fun _ _ => .pure Value.sound_nil
  | println => exact .bind (.mapM fun v _ => plain v) fun _ _ => .bind (print _) fun _ _ => .pure Value.sound_nil
  | readString => exact readString_safe h
  | slurp => exact slurp_safe h
  | readline => exact readline_safe h
  | atom => exact .bind (exactlyOne _ h) fun v hv => .bind (newCell hv) fun id _ => .pure (Value.sound_cell id)
  | deref => exact .bind (exactlyOne _ h) fun v _ => .bind (requireCell _ _) fun id _ => content id
  | reset => exact reset_safe h
  | swap => exact swap_safe hc h
  | getMeta => exact .bind (exactlyOne _ h) fun v hv => .pure hv.info
  | withMeta => exact setMeta_safe h
  | throw =>
    exact .bind (exactlyOne _ h) fun v hv => .bind (inspected _) fun text _ => .fail (.thrown text hv) _
  | timeMs => exact .bind readClock fun _ _ => .pure (Value.sound_int _)
  | eval => exact .bind (exactlyOne _ h) fun form hform => he form hform

end SmallLisp
