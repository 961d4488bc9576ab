/-
Primitives do not tell alike arguments apart: from arguments that agree, in states that agree, they come to
results or faults that agree. Only `meta` looks at metadata, and it does not occur where metadata may
differ. Main statement: `primitive_runsAlike`.
-/
import SmallLisp.Proofs.Primitive.Closed

namespace SmallLisp

namespace Likeness

open Meets

variable {L : Likeness} {n : Nat} {frame : FrameId} {vs ws : List Value}

/-! ## Arithmetic -/

section Arithmetic

theorem own_doubleOverflow : Fault.doubleOverflow.IsOwn := by simp [Fault.IsOwn]

theorem own_divisionByZero : Fault.divisionByZero.IsOwn := by simp [Fault.IsOwn]

/-- A number that is computed agrees with itself. -/
theorem computed_meets {x : Except Fault Number} (h : FailsOnly Fault.IsOwn x) :
    L.Meets n (Number.toValue <$> Run.ofExcept x) (Number.toValue <$> Run.ofExcept x) (L.Alike n) := by
  refine .map ((ofExcept h).weaken ?_)
  rintro x _ rfl
  exact alike_toValue x

variable (h : L.AllAlike n vs ws)
include h

theorem add_meets : L.Meets n (Arithmetic.add frame vs) (Arithmetic.add frame ws) (L.Alike n) := by
  refine .bind (numbers _ h) ?_
  rintro ns _ rfl
  exact computed_meets (foldNumbers_fails (Number.add_fails own_doubleOverflow) _ ns)

theorem multiply_meets : L.Meets n (Arithmetic.multiply frame vs) (Arithmetic.multiply frame ws) (L.Alike n) := by
  refine .bind (numbers _ h) ?_
  rintro ns _ rfl
  exact computed_meets (foldNumbers_fails (Number.mul_fails own_doubleOverflow) _ ns)

theorem subtract_meets : L.Meets n (Arithmetic.subtract frame vs) (Arithmetic.subtract frame ws) (L.Alike n) := by
  refine .bind (oneOrMore _ h) fun _ _ _ => .bind (numbers _ h) ?_
  rintro ns _ rfl
  split
  · exact failArity _ _
  · exact .pure (alike_toValue _)
  · exact computed_meets (foldNumbers_fails (Number.sub_fails own_doubleOverflow) _ _)

theorem divide_meets : L.Meets n (Arithmetic.divide frame vs) (Arithmetic.divide frame ws) (L.Alike n) := by
  have hdiv := Number.div_fails own_doubleOverflow own_divisionByZero
  refine .bind (oneOrMore _ h) fun _ _ _ => .bind (numbers _ h) ?_
  rintro ns _ rfl
  split
  · exact failArity _ _
  · exact computed_meets (hdiv _ _)
  · exact computed_meets (foldNumbers_fails hdiv _ _)

theorem compare_meets (c : Comparison) : L.Meets n (Arithmetic.compare c frame vs) (Arithmetic.compare c frame ws)
    (L.Alike n) := by
  refine .bind (oneOrMore _ h) fun _ _ _ => .bind (numbers _ h) ?_
  rintro ns _ rfl
  exact .pure (.bool _)

theorem equals_meets : L.Meets n (Arithmetic.equals frame vs) (Arithmetic.equals frame ws) (L.Alike n) := by
  refine .bind (oneOrMore _ h) ?_
  rintro ⟨first, others⟩ ⟨first', others'⟩ ⟨hfirst, hothers⟩
  intro s t hst
  have hall : (others.all fun other => first.equal s.cells other) =
      others'.all fun other => first'.equal t.cells other := by
    dsimp only at hfirst hothers
    induction hothers with
    | nil => rfl
    | cons hother _ ih => rw [List.all_cons, List.all_cons, ih, hfirst.equal_eq hst.cells hother]
  refine .value ?_ hst
  rw [hall]
  exact .bool _

end Arithmetic

theorem Alike.holds_eq {v w : Value} (h : L.Alike n v w) (q : Query) : q.holds v = q.holds w := by
  cases h <;> cases q <;> rfl

theorem query_meets (h : L.AllAlike n vs ws) (q : Query) : L.Meets n (q.run frame vs) (q.run frame ws) (L.Alike n) := by
  refine .bind (exactlyOne _ h) fun v w hvw => ?_
  rw [hvw.holds_eq q]
  exact .pure (.bool _)

/-! ## Maps -/

section Maps

theorem newEntries_meets (h : L.AllAlike n vs ws) :
    L.Meets n (Maps.newEntries frame vs) (Maps.newEntries frame ws) (L.EntriesAlike n) := by
  have hpairs := entriesAlike_pairs h
  unfold Maps.newEntries
  rw [h.length_eq]
  split
  · exact failKind _ _
  · exact .bind (.forM (fun _ _ hab => requireKey hab.key "hash-map") hpairs) fun _ _ _ => .pure hpairs.ofList

theorem eraseKeys_meets : ∀ {ks ks' : List Value} {as bs : Entries}, L.AllAlike n ks ks' → L.EntriesAlike n as bs →
    L.Meets n (Maps.eraseKeys as ks) (Maps.eraseKeys bs ks') (L.EntriesAlike n)
  | [], _, _, _, .nil, h => .pure h
  | _ :: _, _, _, _, .cons hk hks, h =>
    .bind (requireKey hk "dissoc") fun _ _ _ => eraseKeys_meets hks (h.erase hk)

variable (h : L.AllAlike n vs ws)
include h

theorem hashMap_meets : L.Meets n (Maps.hashMap frame vs) (Maps.hashMap frame ws) (L.Alike n) :=
  .bind (newEntries_meets h) fun _ _ hentries => .pure (alike_ofEntries hentries)

theorem assoc_meets : L.Meets n (Maps.assoc frame vs) (Maps.assoc frame ws) (L.Alike n) :=
  .bind (oneOrMore _ h) fun _ _ ⟨hv, hrest⟩ => .bind (entries hv _) fun _ _ hold =>
    .bind (newEntries_meets hrest) fun _ _ hnew => .pure (alike_ofEntries (hold.merge hnew))

theorem dissoc_meets : L.Meets n (Maps.dissoc frame vs) (Maps.dissoc frame ws) (L.Alike n) :=
  .bind (oneOrMore _ h) fun _ _ ⟨hv, hkeys⟩ => .bind (entries hv _) fun _ _ hold =>
    .bind (eraseKeys_meets hkeys hold) fun _ _ hentries => .pure (alike_ofEntries hentries)

theorem get_meets : L.Meets n (Maps.get frame vs) (Maps.get frame ws) (L.Alike n) :=
  .bind (exactlyTwo _ h) fun _ _ ⟨hv, hk⟩ => .bind (entries hv _) fun _ _ hentries =>
    .bind (requireKey hk _) fun _ _ _ => .pure (alike_getD (hentries.find? hk))

theorem contains_meets : L.Meets n (Maps.contains frame vs) (Maps.contains frame ws) (L.Alike n) := by
  refine .bind (exactlyTwo _ h) fun _ _ ⟨hv, hk⟩ => .bind (requireKey hk _) fun _ _ _ =>
    .bind (entries hv _) fun _ _ hentries => ?_
  rw [hentries.contains_eq hk]
  exact .pure (.bool _)

theorem keys_meets : L.Meets n (Maps.keys frame vs) (Maps.keys frame ws) (L.Alike n) :=
  .bind (exactlyOne _ h) fun _ _ hv => .bind (entries hv _) fun _ _ hentries => .pure (alike_ofList hentries.keys)

theorem vals_meets : L.Meets n (Maps.vals frame vs) (Maps.vals frame ws) (L.Alike n) :=
  .bind (exactlyOne _ h) fun _ _ hv => .bind (entries hv _) fun _ _ hentries => .pure (alike_ofList hentries.values)

end Maps

/-! ## Sequences -/

section Sequences

variable (h : L.AllAlike n vs ws)
include h

theorem cons_meets : L.Meets n (Sequences.cons frame vs) (Sequences.cons frame ws) (L.Alike n) :=
  .bind (exactlyTwo _ h) fun _ _ ⟨hhead, htail⟩ => .bind (sequence htail _) fun _ _ hitems =>
    .pure (alike_ofList (.cons hhead hitems))

theorem concat_meets : L.Meets n (Sequences.concat frame vs) (Sequences.concat frame ws) (L.Alike n) :=
  .bind (.mapM (P := L.Alike n) (fun _ _ hv => sequence hv "concat") h) fun _ _ hsequences =>
    .pure (alike_ofList (List.rel_flatten hsequences))

theorem count_meets : L.Meets n (Sequences.count frame vs) (Sequences.count frame ws) (L.Alike n) := by
  refine .bind (exactlyOne _ h) fun v w hvw => ?_
  have hitems : L.Meets n (do return .int (← Run.sequence "count" v).length)
      (do return .int (← Run.sequence "count" w).length)
      (L.Alike n) := by
    refine .bind (sequence hvw _) fun _ _ hitems => ?_
    rw [hitems.length_eq]
    exact .pure (.int _)
  have hvw' := hvw
  cases hvw with
  | map =>
    dsimp only
    rw [hvw'.entries.length_eq]
    exact .pure (.int _)
  | str text => exact .pure (.int _)
  | _ => exact hitems

theorem isEmpty_meets : L.Meets n (Sequences.isEmpty frame vs) (Sequences.isEmpty frame ws) (L.Alike n) := by
  refine .bind (exactlyOne _ h) fun v w hvw => .bind (count_meets (.cons hvw .nil)) fun _ _ hcount => ?_
  cases hcount with
  | int => exact .pure (.bool _)
  | _ => exact .pure (.bool false)

theorem first_meets : L.Meets n (Sequences.first frame vs) (Sequences.first frame ws) (L.Alike n) :=
  .bind (exactlyOne _ h) fun _ _ hv => .bind (sequence hv _) fun _ _ hitems => .pure (alike_headD hitems)

theorem rest_meets : L.Meets n (Sequences.rest frame vs) (Sequences.rest frame ws) (L.Alike n) :=
  .bind (exactlyOne _ h) fun _ _ hv => .bind (sequence hv _) fun _ _ hitems =>
    .pure (alike_ofList (allAlike_tail hitems))

theorem nth_meets : L.Meets n (Sequences.nth frame vs) (Sequences.nth frame ws) (L.Alike n) := by
  refine .bind (exactlyTwo _ h) ?_
  rintro ⟨v, index⟩ ⟨w, index'⟩ ⟨hvw, hindex⟩
  refine .bind (sequence hvw _) fun items items' hitems => ?_
  dsimp only at hindex
  cases hindex with
  | int i =>
    dsimp only
    split
    · exact failOwn (by simp [Fault.IsOwn]) _
    · have hitem := alike_getElem? hitems i.toNat
      generalize items[i.toNat]? = item at hitem
      generalize items'[i.toNat]? = item' at hitem
      cases hitem with
      | some hitem => exact .pure hitem
      | none => exact failOwn (by simp [Fault.IsOwn]) _
  | _ => exact failKind _ _

theorem conj_meets : L.Meets n (Sequences.conj frame vs) (Sequences.conj frame ws) (L.Alike n) := by
  refine .bind (oneOrMore _ h) ?_
  rintro ⟨v, items⟩ ⟨w, items'⟩ ⟨hvw, hitems⟩
  have hlist : L.Meets n (do return .ofList (items.reverse ++ (← Run.sequence "conj" v)))
      (do return .ofList (items'.reverse ++ (← Run.sequence "conj" w))) (L.Alike n) :=
    .bind (sequence hvw _) fun _ _ hold => .pure (alike_ofList (List.rel_append (List.rel_reverse hitems) hold))
  dsimp only at hvw hitems ⊢
  cases hvw with
  | vector hold => exact .pure (alike_ofVector (List.rel_append hold hitems))
  | _ => exact hlist

theorem seq_meets : L.Meets n (Sequences.seq frame vs) (Sequences.seq frame ws) (L.Alike n) := by
  refine .bind (exactlyOne _ h) fun v w hvw => ?_
  have hresult : ∀ {items items' : List Value}, L.AllAlike n items items' →
      L.Alike n (if items.isEmpty then .nil else .ofList items) (if items'.isEmpty then .nil else .ofList items') := by
    intro items items' hitems
    cases hitems with
    | nil => exact .nil
    | cons hitem hitems => exact alike_ofList (.cons hitem hitems)
  have hitems := sequence hvw "seq"
  cases hvw with
  | str text =>
    refine .pure (hresult (List.forall₂_same.2 fun v hv => ?_))
    obtain ⟨c, -, rfl⟩ := List.mem_map.1 hv
    exact .str _
  | _ => exact .bind hitems fun _ _ hitems => .pure (hresult hitems)

theorem vec_meets : L.Meets n (Sequences.vec frame vs) (Sequences.vec frame ws) (L.Alike n) :=
  .bind (exactlyOne _ h) fun _ _ hv => .bind (sequence hv _) fun _ _ hitems => .pure (alike_ofVector hitems)

end Sequences

/-! ## Texts -/

section Texts

variable (h : L.AllAlike n vs ws)
include h

theorem symbol_meets : L.Meets n (Texts.symbol frame vs) (Texts.symbol frame ws) (L.Alike n) := by
  refine .bind (exactlyOne _ h) fun v w hvw => ?_
  cases hvw with
  | str text => exact .pure (.symbol text)
  | _ => exact failKind _ _

theorem keyword_meets : L.Meets n (Texts.keyword frame vs) (Texts.keyword frame ws) (L.Alike n) := by
  refine .bind (exactlyOne _ h) fun v w hvw => ?_
  cases hvw with
  | keyword name => exact .pure (.keyword name)
  | str text => exact .pure (.keyword text)
  | _ => exact failKind _ _

theorem texts_shown : L.Meets n (vs.mapM Run.shown) (ws.mapM Run.shown) Eq :=
  .mapM_eq (fun _ _ hv => shown hv) h

theorem texts_plain : L.Meets n (vs.mapM Run.plain) (ws.mapM Run.plain) Eq :=
  .mapM_eq (fun _ _ hv => plain hv) h

theorem prStr_meets : L.Meets n (Texts.prStr frame vs) (Texts.prStr frame ws) (L.Alike n) := by
  refine .bind (texts_shown h) ?_
  rintro texts _ rfl
  exact .pure (.str _)

theorem str_meets : L.Meets n (Texts.str frame vs) (Texts.str frame ws) (L.Alike n) := by
  refine .bind (texts_plain h) ?_
  rintro texts _ rfl
  exact .pure (.str _)

theorem prn_meets : L.Meets n (Texts.prn frame vs) (Texts.prn frame ws) (L.Alike n) := by
  refine .bind (texts_shown h) ?_
  rintro texts _ rfl
  exact .bind (print _) fun _ _ _ => .pure .nil

theorem println_meets : L.Meets n (Texts.println frame vs) (Texts.println frame ws) (L.Alike n) := by
  refine .bind (texts_plain h) ?_
  rintro texts _ rfl
  exact .bind (print _) fun _ _ _ => .pure .nil

/-- Both arguments are the same text, and what is read from it agrees with itself. -/
theorem readString_meets : L.Meets n (Texts.readString frame vs) (Texts.readString frame ws) (L.Alike n) := by
  refine .bind (exactlyOne _ h) fun v w hvw => ?_
  cases hvw with
  | str text =>
    dsimp only
    split
    · next form? hread =>
      cases form? with
      | none => exact .pure .nil
      | some form => exact .pure (alike_holdsOfForms.read hread)
    · exact failOwn (by simp [Fault.IsOwn]) _
  | _ => exact failKind _ _

theorem slurp_meets : L.Meets n (Texts.slurp frame vs) (Texts.slurp frame ws) (L.Alike n) := by
  refine .bind (exactlyOne _ h) fun v w hvw => ?_
  cases hvw with
  | str text =>
    refine .bind (readFile _) ?_
    rintro content _ rfl
    exact .pure (.str _)
  | _ => exact failKind _ _

theorem readline_meets : L.Meets n (Texts.readline frame vs) (Texts.readline frame ws) (L.Alike n) := by
  refine .bind (exactlyOne _ h) fun v w hvw => .bind (plain hvw) ?_
  rintro question _ rfl
  refine .bind (print _) fun _ _ _ => .bind nextLine ?_
  rintro line _ rfl
  cases line with
  | some text => exact .pure (.str text)
  | none => exact .pure .nil

end Texts

/-! ## Cells, clock and metadata -/

theorem timeMs_meets : L.Meets n (do return .int (← Run.readClock) : Run Value) (do return .int (← Run.readClock))
    (L.Alike n) := by
  refine .bind readClock ?_
  rintro time _ rfl
  exact .pure (.int _)

section Cells

variable (h : L.AllAlike n vs ws)
include h

theorem atom_meets : L.Meets n (Cells.atom frame vs) (Cells.atom frame ws) (L.Alike n) := by
  refine .bind (exactlyOne _ h) fun v w hvw => .bind (newCell hvw) ?_
  rintro id _ rfl
  exact .pure (.cell id)

theorem deref_meets : L.Meets n (Cells.deref frame vs) (Cells.deref frame ws) (L.Alike n) := by
  refine .bind (exactlyOne _ h) fun v w hvw => .bind (requireCell hvw _) ?_
  rintro id _ rfl
  exact content id

theorem reset_meets : L.Meets n (Cells.reset frame vs) (Cells.reset frame ws) (L.Alike n) := by
  refine .bind (exactlyTwo _ h) fun _ _ ⟨hcell, hcontent⟩ => .bind (requireCell hcell _) ?_
  rintro id _ rfl
  exact .bind (setContent id hcontent) fun _ _ _ => .pure hcontent

theorem getMeta_meets (hinfo : L.comparesInfo) : L.Meets n (Metadata.get frame vs) (Metadata.get frame ws)
    (L.Alike n) :=
  .bind (exactlyOne _ h) fun _ _ hvw => .pure (hvw.info hinfo)

theorem setMeta_meets : L.Meets n (Metadata.set frame vs) (Metadata.set frame ws) (L.Alike n) := by
  refine .bind (exactlyTwo _ h) ?_
  rintro ⟨v, info⟩ ⟨w, info'⟩ ⟨hvw, hinfo⟩
  dsimp only at hvw hinfo ⊢
  have hwith := hvw.withInfo? hinfo
  rw [hvw.kindName_eq]
  generalize v.withInfo? info = result at hwith
  generalize w.withInfo? info' = result' at hwith
  cases hwith with
  | some h => exact .pure h
  | none => exact failKind _ _

theorem throw_meets : L.Meets n (Calls.throw frame vs) (Calls.throw frame ws) (L.Alike n) := by
  refine .bind (exactlyOne _ h) fun v w hvw => .bind (inspected hvw) ?_
  rintro text _ rfl
  exact .fail (.thrown text hvw) _

end Cells

/-! ## All primitives -/

/-- A primitive that neither calls nor evaluates anything. -/
theorem primitive_meets {eval eval' : Evaluator} {call call' : Caller} {p : Primitive} (hp : p ∉ Primitive.calling)
    (hadmits : L.admits p) (h : L.AllAlike n vs ws) :
    L.Meets n (p.run eval call frame vs) (p.run eval' call' frame ws) (L.Alike n) := by
  cases p with dsimp only [Primitive.run]
  | add => exact add_meets h
  | subtract => exact subtract_meets h
  | multiply => exact multiply_meets h
  | divide => exact divide_meets h
  | equals => exact equals_meets h
  | compare c => exact compare_meets h c
  | query q => exact query_meets h q
  | symbol => exact symbol_meets h
  | keyword => exact keyword_meets h
  | list => exact .pure (alike_ofList h)
  | vector => exact .pure (alike_ofVector h)
  | hashMap => exact hashMap_meets h
  | cons => exact cons_meets h
  | concat => exact concat_meets h
  | count => exact count_meets h
  | isEmpty => exact isEmpty_meets h
  | first => exact first_meets h
  | rest => exact rest_meets h
  | nth => exact nth_meets h
  | conj => exact conj_meets h
  | seq => exact seq_meets h
  | vec => exact vec_meets h
  | assoc => exact assoc_meets h
  | dissoc => exact dissoc_meets h
  | get => exact get_meets h
  | contains => exact contains_meets h
  | keys => exact keys_meets h
  | vals => exact vals_meets h
  | prStr => exact prStr_meets h
  | str => exact str_meets h
  | prn => exact prn_meets h
  | println => exact println_meets h
  | readString => exact readString_meets h
  | slurp => exact slurp_meets h
  | readline => exact readline_meets h
  | atom => exact atom_meets h
  | deref => exact deref_meets h
  | reset => exact reset_meets h
  | getMeta => exact getMeta_meets h (L.comparesInfo_of_admits hadmits)
  | withMeta => exact setMeta_meets h
  | throw => exact throw_meets h
  | timeMs => exact timeMs_meets
  | apply | map | swap | eval => exact absurd (by decide) hp

/-- Evaluators that come to ends that agree, from forms that agree, in a frame that may be referred to. -/
def EvaluatorsAlike (L : Likeness) (eval eval' : Evaluator) : Prop :=
  ∀ (n : Nat) {form form' : Value} {frame : FrameId}, L.Alike n form form' → L.refers n frame →
    L.RunsAlike n (eval form frame) (eval' form' frame) fun m => L.Alike m

/-- Callers that come to ends that agree, from functions and arguments that agree. -/
def CallersAlike (L : Likeness) (call call' : Caller) : Prop :=
  ∀ (n : Nat) {function function' : Value} {args args' : List Value} (frame : FrameId), L.Alike n function function' →
    L.AllAlike n args args' → L.RunsAlike n (call function args frame) (call' function' args' frame) fun m => L.Alike m

section Calls

variable {call call' : Caller} (hc : L.CallersAlike call call') (h : L.AllAlike n vs ws)
include hc h

theorem apply_runsAlike : L.RunsAlike n (Calls.apply call frame vs) (Calls.apply call' frame ws) fun m =>
    L.Alike m := by
  refine .bind_relates (twoOrMore _ h) ?_
  rintro ⟨function, second, others⟩ ⟨function', second', others'⟩ ⟨hfunction, hsecond, hothers⟩
  dsimp only at hfunction hsecond hothers ⊢
  have hgiven : L.AllAlike n (second :: others) (second' :: others') := .cons hsecond hothers
  exact .bind_relates (sequence (alike_getLastD hgiven) _) fun _ _ hlast =>
    hc n frame hfunction (List.rel_append (allAlike_dropLast hgiven) hlast)

theorem map_runsAlike : L.RunsAlike n (Calls.map call frame vs) (Calls.map call' frame ws) fun m => L.Alike m := by
  refine .bind_relates (exactlyTwo _ h) ?_
  rintro ⟨function, row⟩ ⟨function', row'⟩ ⟨hfunction, hrow⟩
  refine .bind_relates (sequence hrow _) fun items items' hitems => ?_
  have hcalls : L.RunsAlike n (items.mapM fun item => call function [item] frame)
      (items'.mapM fun item => call' function' [item] frame)
      fun m => L.AllAlike m := by
    -- the function goes on to agree while frames are added
    refine .mapM (P := fun m a b => L.Alike m function function' ∧ L.Alike m a b)
      (fun hmk h => ⟨h.1.mono hmk, h.2.mono hmk⟩)
      (fun hmk h => h.mono hmk) (fun m _ _ ⟨hf, hitem⟩ => hc m frame hf (.cons hitem .nil)) ?_
    exact hitems.imp fun _ _ hitem => ⟨hfunction, hitem⟩
  exact .bind hcalls fun _ _ _ _ hresults => .pure (alike_ofList hresults)

theorem swap_runsAlike : L.RunsAlike n (Cells.swap call frame vs) (Cells.swap call' frame ws) fun m => L.Alike m := by
  refine .bind_relates (twoOrMore _ h) ?_
  rintro ⟨cell, function, extra⟩ ⟨cell', function', extra'⟩ ⟨hcell, hfunction, hextra⟩
  refine .bind_relates (requireCell hcell _) ?_
  rintro id _ rfl
  refine .bind_relates (content id) fun _ _ hold => ?_
  refine .bind (hc n frame hfunction (.cons hold hextra)) fun m _ _ _ hnew => ?_
  exact .bind_relates (setContent id hnew) fun _ _ _ => .pure hnew

end Calls

/-- Primitives come to ends that agree, if what they call and evaluate does. -/
theorem primitive_runsAlike {eval eval' : Evaluator} {call call' : Caller} (he : L.EvaluatorsAlike eval eval')
    (hc : L.CallersAlike call call') {p : Primitive} (hadmits : L.admits p) (h : L.AllAlike n vs ws) :
    L.RunsAlike n (p.run eval call frame vs) (p.run eval' call' frame ws) fun m => L.Alike m := by
  by_cases hp : p ∈ Primitive.calling
  · simp only [Primitive.calling, List.mem_cons, List.not_mem_nil, or_false] at hp
    rcases hp with rfl | rfl | rfl | rfl
    · exact apply_runsAlike hc h
    · exact map_runsAlike hc h
    · exact swap_runsAlike hc h
    · intro s t hst
      exact Run.RelatesFrom.bind_relates (exactlyOne _ h) (fun _ _ hform => he n hform hst.root) s t hst
  · exact .of_relates (primitive_meets hp hadmits h)

end Likeness

end SmallLisp
