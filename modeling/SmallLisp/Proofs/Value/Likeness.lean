/-
Values that are alike. What the values of two runs must agree in is a parameter, a `Likeness`: which frames
functions may belong to, which primitives may occur, and whether metadata counts. Whatever does not look at
metadata cannot tell alike values apart (`Alike.text_eq`, `Alike.equal_eq`), and what is made of alike
values is alike.
-/
import Mathlib.Data.List.Forall2
import SmallLisp.Proofs.Source.Literals
import SmallLisp.Proofs.Template.Holes
import SmallLisp.Value.Text

namespace SmallLisp

/-- What must agree in values of two runs. -/
structure Likeness where
  /-- The frames to which a function may belong, where there are so many frames. -/
  refers : Nat → FrameId → Prop
  /-- The primitives that may occur. -/
  admits : Primitive → Prop
  /-- Whether metadata must agree as well. -/
  comparesInfo : Prop
  refers_mono : ∀ {m n : Nat} {id : FrameId}, m ≤ n → refers m id → refers n id
  refers_new : ∀ n : Nat, refers (n + 1) n
  /-- Only one primitive looks at metadata. -/
  comparesInfo_of_admits : admits .getMeta → comparesInfo

namespace Likeness

/-- Values that agree, where there are `n` frames. -/
inductive Alike (L : Likeness) (n : Nat) : Value → Value → Prop where
  | nil : Alike L n .nil .nil
  | bool (b : Bool) : Alike L n (.bool b) (.bool b)
  | int (i : Int) : Alike L n (.int i) (.int i)
  | float (x : Binary64) : Alike L n (.float x) (.float x)
  | str (text : String) : Alike L n (.str text) (.str text)
  | symbol (name : String) : Alike L n (.symbol name) (.symbol name)
  | keyword (name : String) : Alike L n (.keyword name) (.keyword name)
  | cell (id : CellId) : Alike L n (.cell id) (.cell id)
  | list {items items' : List Value} {info info' : Value} :
    List.Forall₂ (Alike L n) items items' → (L.comparesInfo → Alike L n info info') →
    Alike L n (.list items info) (.list items' info')
  | vector {items items' : List Value} {info info' : Value} :
    List.Forall₂ (Alike L n) items items' → (L.comparesInfo → Alike L n info info') →
    Alike L n (.vector items info) (.vector items' info')
  | map {entries entries' : List (Value × Value)} {info info' : Value} :
    List.Forall₂ (fun a b => Alike L n a.1 b.1) entries entries' →
    List.Forall₂ (fun a b => Alike L n a.2 b.2) entries entries' → (L.comparesInfo → Alike L n info info') →
    Alike L n (.map entries info) (.map entries' info')
  | closure (params : Parameters) {body body' : List Value} {frame : FrameId} (isMacro : Bool) {info info' : Value} :
    List.Forall₂ (Alike L n) body body' → L.refers n frame → (L.comparesInfo → Alike L n info info') →
    Alike L n (.closure params body frame isMacro info) (.closure params body' frame isMacro info')
  | primitive {p : Primitive} (isMacro : Bool) {info info' : Value} :
    L.admits p → (L.comparesInfo → Alike L n info info') →
    Alike L n (.primitive p isMacro info) (.primitive p isMacro info')

variable {L : Likeness} {m n : Nat}

/-- Rows of values that agree one by one. -/
abbrev AllAlike (L : Likeness) (n : Nat) : List Value → List Value → Prop := List.Forall₂ (L.Alike n)

/-- Entries with keys and values that agree. -/
structure EntryAlike (L : Likeness) (n : Nat) (a b : Value × Value) : Prop where
  key : L.Alike n a.1 b.1
  value : L.Alike n a.2 b.2

abbrev EntriesAlike (L : Likeness) (n : Nat) : Entries → Entries → Prop := List.Forall₂ (L.EntryAlike n)

theorem entriesAlike_iff {as bs : Entries} : L.EntriesAlike n as bs ↔
    List.Forall₂ (fun a b => L.Alike n a.1 b.1) as bs ∧ List.Forall₂ (fun a b => L.Alike n a.2 b.2) as bs := by
  constructor
  · exact fun h => ⟨h.imp fun _ _ h => h.key, h.imp fun _ _ h => h.value⟩
  · rintro ⟨hkeys, hvalues⟩
    induction hkeys with
    | nil => exact .nil
    | cons hkey _ ih =>
      obtain ⟨hvalue, hvalues⟩ := List.forall₂_cons.1 hvalues
      exact .cons ⟨hkey, hvalue⟩ (ih hvalues)

theorem alike_map {as bs : Entries} {info info' : Value} (h : L.EntriesAlike n as bs)
    (hinfo : L.comparesInfo → L.Alike n info info') : L.Alike n (.map as info) (.map bs info') :=
  .map (entriesAlike_iff.1 h).1 (entriesAlike_iff.1 h).2 hinfo

theorem Alike.entries {as bs : Entries} {info info' : Value} (h : L.Alike n (.map as info) (.map bs info')) :
    L.EntriesAlike n as bs := by
  cases h with
  | map hkeys hvalues => exact entriesAlike_iff.2 ⟨hkeys, hvalues⟩

/-! ## More frames -/

mutual

/-- What agrees goes on to agree when there are more frames. -/
theorem Alike.mono (hmn : m ≤ n) : ∀ {v w : Value}, L.Alike m v w → L.Alike n v w
  | .nil, _, .nil => .nil
  | .bool b, _, .bool _ => .bool b
  | .int i, _, .int _ => .int i
  | .float x, _, .float _ => .float x
  | .str text, _, .str _ => .str text
  | .symbol name, _, .symbol _ => .symbol name
  | .keyword name, _, .keyword _ => .keyword name
  | .cell id, _, .cell _ => .cell id
  | .list .., _, .list hitems hinfo => .list (AllAlike.mono hmn hitems) fun h => Alike.mono hmn (hinfo h)
  | .vector .., _, .vector hitems hinfo => .vector (AllAlike.mono hmn hitems) fun h => Alike.mono hmn (hinfo h)
  | .map .., _, h@(.map _ _ hinfo) => alike_map (EntriesAlike.mono hmn h.entries) fun h => Alike.mono hmn (hinfo h)
  | .closure .., _, .closure params isMacro hbody hframe hinfo =>
    .closure params isMacro (AllAlike.mono hmn hbody) (L.refers_mono hmn hframe) fun h => Alike.mono hmn (hinfo h)
  | .primitive .., _, .primitive isMacro hp hinfo => .primitive isMacro hp fun h => Alike.mono hmn (hinfo h)

theorem AllAlike.mono (hmn : m ≤ n) : ∀ {vs ws : List Value}, L.AllAlike m vs ws → L.AllAlike n vs ws
  | [], _, .nil => .nil
  | _ :: _, _, .cons h hs => .cons (Alike.mono hmn h) (AllAlike.mono hmn hs)

theorem EntriesAlike.mono (hmn : m ≤ n) : ∀ {as bs : List (Value × Value)}, L.EntriesAlike m as bs →
    L.EntriesAlike n as bs
  | [], _, .nil => .nil
  | (_, _) :: _, _, .cons h hs => .cons ⟨Alike.mono hmn h.key, Alike.mono hmn h.value⟩ (EntriesAlike.mono hmn hs)

end

/-! ## Kinds and parts -/

namespace Alike

variable {v w : Value} (h : L.Alike n v w)
include h

theorem isFunction_eq : v.isFunction = w.isFunction := by cases h <;> rfl

theorem kindName_eq : v.kindName = w.kindName := by cases h <;> rfl

theorem number?_eq : v.number? = w.number? := by cases h <;> rfl

theorem info (hinfo : L.comparesInfo) : L.Alike n v.info w.info := by
  cases h with
  | list _ h | vector _ h | map _ _ h | closure _ _ _ _ h | primitive _ _ h => exact h hinfo
  | _ => exact .nil

theorem withInfo? {info info' : Value} (hinfo : L.Alike n info info') :
    Option.Rel (L.Alike n) (v.withInfo? info) (w.withInfo? info') := by
  cases h with
  | list hitems => exact .some (.list hitems fun _ => hinfo)
  | vector hitems => exact .some (.vector hitems fun _ => hinfo)
  | map hkeys hvalues => exact .some (.map hkeys hvalues fun _ => hinfo)
  | closure params isMacro hbody hframe => exact .some (.closure params isMacro hbody hframe fun _ => hinfo)
  | primitive isMacro hp => exact .some (.primitive isMacro hp fun _ => hinfo)
  | _ => exact .none

theorem asMacro? : Option.Rel (L.Alike n) v.asMacro? w.asMacro? := by
  cases h with
  | closure params _ hbody hframe hinfo => exact .some (.closure params true hbody hframe hinfo)
  | primitive _ hp hinfo => exact .some (.primitive true hp hinfo)
  | _ => exact .none

end Alike

/-! ## Making values -/

theorem alike_ofList {vs ws : List Value} (h : L.AllAlike n vs ws) : L.Alike n (.ofList vs) (.ofList ws) :=
  .list h fun _ => .nil

theorem alike_ofVector {vs ws : List Value} (h : L.AllAlike n vs ws) : L.Alike n (.ofVector vs) (.ofVector ws) :=
  .vector h fun _ => .nil

theorem alike_ofEntries {as bs : Entries} (h : L.EntriesAlike n as bs) : L.Alike n (.ofEntries as) (.ofEntries bs) :=
  alike_map h fun _ => .nil

theorem alike_toValue (x : Number) : L.Alike n x.toValue x.toValue := by
  cases x with
  | int i => exact .int i
  | float x => exact .float x

/-- A value that may be missing, or nil in its place. -/
theorem alike_getD {v? w? : Option Value} (h : Option.Rel (L.Alike n) v? w?) :
    L.Alike n (v?.getD .nil) (w?.getD .nil) := by
  cases h with
  | none => exact .nil
  | some h => exact h

theorem alike_getElem? {vs ws : List Value} (h : L.AllAlike n vs ws) (i : Nat) :
    Option.Rel (L.Alike n) vs[i]? ws[i]? := by
  induction h generalizing i with
  | nil => exact .none
  | cons hvw _ ih =>
    cases i with
    | zero => exact .some hvw
    | succ i => exact ih i

theorem alike_headD {vs ws : List Value} (h : L.AllAlike n vs ws) : L.Alike n (vs.headD .nil) (ws.headD .nil) := by
  cases h with
  | nil => exact .nil
  | cons h => exact h

theorem alike_getLastD {vs ws : List Value} (h : L.AllAlike n vs ws) :
    L.Alike n (vs.getLastD .nil) (ws.getLastD .nil) := by
  rw [List.getLastD_eq_getLast?, List.getLastD_eq_getLast?, List.getLast?_eq_getElem?, List.getLast?_eq_getElem?,
    h.length_eq]
  exact alike_getD (alike_getElem? h _)

theorem allAlike_dropLast {vs ws : List Value} (h : L.AllAlike n vs ws) : L.AllAlike n vs.dropLast ws.dropLast := by
  rw [List.dropLast_eq_take, List.dropLast_eq_take, h.length_eq]
  exact List.forall₂_take _ h

theorem allAlike_tail {vs ws : List Value} (h : L.AllAlike n vs ws) : L.AllAlike n vs.tail ws.tail := by
  cases h with
  | nil => exact .nil
  | cons _ h => exact h

/-! ## Texts -/

section Texts

variable (readable : Bool) (cell : CellId → Except Fault String)

open Value (textWith textsWith entryTextsWith inspectWith inspectAllWith inspectEntriesWith)

mutual

/-- Texts do not show metadata. -/
theorem Alike.textWith_eq : ∀ {v w : Value}, L.Alike n v w → textWith readable cell v = textWith readable cell w
  | .nil, _, .nil | .bool _, _, .bool _ | .int _, _, .int _ | .float _, _, .float _ | .str _, _, .str _
  | .symbol _, _, .symbol _ | .keyword _, _, .keyword _ | .cell _, _, .cell _ | .closure .., _, .closure ..
  | .primitive .., _, .primitive .. => rfl
  | .list .., _, .list h _ => congrArg (Except.map _) (AllAlike.textsWith_eq h)
  | .vector .., _, .vector h _ => congrArg (Except.map _) (AllAlike.textsWith_eq h)
  | .map .., _, h@(.map ..) => congrArg (Except.map _) (EntriesAlike.textsWith_eq h.entries)

theorem AllAlike.textsWith_eq : ∀ {vs ws : List Value}, L.AllAlike n vs ws →
    textsWith readable cell vs = textsWith readable cell ws
  | [], _, .nil => rfl
  | _ :: _, _, .cons h hs => by rw [textsWith, textsWith, Alike.textWith_eq h, AllAlike.textsWith_eq hs]

theorem EntriesAlike.textsWith_eq : ∀ {as bs : List (Value × Value)}, L.EntriesAlike n as bs →
    entryTextsWith readable cell as = entryTextsWith readable cell bs
  | [], _, .nil => rfl
  | (_, _) :: _, (_, _) :: _, .cons h hs => by
    rw [entryTextsWith, entryTextsWith, Alike.textWith_eq h.key, Alike.textWith_eq h.value,
      EntriesAlike.textsWith_eq hs]

end

mutual

theorem Alike.inspectWith_eq : ∀ {v w : Value}, L.Alike n v w → inspectWith cell v = inspectWith cell w
  | .nil, _, .nil | .bool _, _, .bool _ | .int _, _, .int _ | .float _, _, .float _ | .str _, _, .str _
  | .symbol _, _, .symbol _ | .keyword _, _, .keyword _ | .cell _, _, .cell _ | .primitive .., _, .primitive .. => rfl
  | .list .., _, .list h _ => congrArg (Except.map _) (AllAlike.inspectWith_eq h)
  | .vector .., _, .vector h _ => congrArg (Except.map _) (AllAlike.inspectWith_eq h)
  | .map .., _, h@(.map ..) => congrArg (Except.map _) (EntriesAlike.inspectWith_eq h.entries)
  | .closure .., _, .closure _ _ h _ _ => by rw [inspectWith, inspectWith, AllAlike.inspectWith_eq h]

theorem AllAlike.inspectWith_eq : ∀ {vs ws : List Value}, L.AllAlike n vs ws →
    inspectAllWith cell vs = inspectAllWith cell ws
  | [], _, .nil => rfl
  | _ :: _, _, .cons h hs => by rw [inspectAllWith, inspectAllWith, Alike.inspectWith_eq h, AllAlike.inspectWith_eq hs]

theorem EntriesAlike.inspectWith_eq : ∀ {as bs : List (Value × Value)}, L.EntriesAlike n as bs →
    inspectEntriesWith cell as = inspectEntriesWith cell bs
  | [], _, .nil => rfl
  | (_, _) :: _, (_, _) :: _, .cons h hs => by
    rw [inspectEntriesWith, inspectEntriesWith, Alike.inspectWith_eq h.key, Alike.inspectWith_eq h.value,
      EntriesAlike.inspectWith_eq hs]

end

end Texts

/-- Stores of cells whose contents agree one by one. -/
structure CellsAlike (L : Likeness) (n : Nat) (cells cells' : Array Value) : Prop where
  size_eq : cells.size = cells'.size
  each : ∀ id : CellId, L.Alike n (cells.getD id .nil) (cells'.getD id .nil)

/-- What does not tell values that agree apart comes to the same for all contents. -/
theorem CellsAlike.map_eq {γ : Type} {g : Value → γ} (hg : ∀ {v w}, L.Alike n v w → g v = g w)
    {cells cells' : Array Value} (h : L.CellsAlike n cells cells') : cells.map g = cells'.map g := by
  refine Array.ext (by rw [Array.size_map, Array.size_map, h.size_eq]) fun id hid hid' => ?_
  rw [Array.getElem_map, Array.getElem_map]
  rw [Array.size_map] at hid hid'
  have hcell := h.each id
  rw [Array.getD_eq_getD_getElem?, Array.getD_eq_getD_getElem?, Array.getElem?_eq_getElem hid,
    Array.getElem?_eq_getElem hid'] at hcell
  exact hg hcell

section Cells

variable {cells cells' : Array Value} (h : L.CellsAlike n cells cells')
include h

theorem cellText_eq (readable : Bool) (depth : Nat) :
    Value.cellText readable cells depth = Value.cellText readable cells' depth := by
  induction depth with
  | zero => rfl
  | succ depth ih =>
    funext id
    rw [Value.cellText, Value.cellText, ih, (h.each id).textWith_eq]

theorem cellInspection_eq (depth : Nat) : Value.cellInspection cells depth = Value.cellInspection cells' depth := by
  induction depth with
  | zero => rfl
  | succ depth ih =>
    funext id
    rw [Value.cellInspection, Value.cellInspection, ih, (h.each id).inspectWith_eq]

theorem Alike.text_eq {v w : Value} (hvw : L.Alike n v w) (readable : Bool) :
    v.text readable cells = w.text readable cells' := by
  rw [Value.text, Value.text, cellText_eq h, h.size_eq, hvw.textWith_eq]

theorem Alike.inspect_eq {v w : Value} (hvw : L.Alike n v w) : v.inspect cells = w.inspect cells' := by
  rw [Value.inspect, Value.inspect, cellInspection_eq h, h.size_eq, hvw.inspectWith_eq]

end Cells

/-! ## Equality -/

/-- What is looked for among related values is found among both or neither. -/
theorem rel_find? {α β : Type} {R : α → β → Prop} {p : α → Bool} {q : β → Bool} (hpq : ∀ a b, R a b → p a = q b)
    {as : List α} {bs : List β} (h : List.Forall₂ R as bs) : Option.Rel R (as.find? p) (bs.find? q) := by
  induction h with
  | nil => exact .none
  | @cons a b as bs hab _ ih =>
    rw [List.find?_cons, List.find?_cons, hpq a b hab]
    cases q b with
    | true => exact .some hab
    | false => exact ih

section Equality

variable (cells : CellId → CellId → Bool)

open Value (equalWith allEqualWith entriesWithin)

mutual

/-- Equality does not look at metadata. -/
theorem Alike.equalWith_eq : ∀ {a b : Value}, L.Alike n a b → ∀ {c d : Value}, L.Alike n c d →
    equalWith cells a c = equalWith cells b d
  | .nil, _, .nil, _, _, h | .bool _, _, .bool _, _, _, h | .int _, _, .int _, _, _, h | .float _, _, .float _, _, _, h
  | .str _, _, .str _, _, _, h | .symbol _, _, .symbol _, _, _, h | .keyword _, _, .keyword _, _, _, h
  | .cell _, _, .cell _, _, _, h => by cases h <;> rfl
  | .closure .., _, .closure .., _, _, h | .primitive .., _, .primitive .., _, _, h => by cases h <;> rfl
  | .list .., _, .list hab _, _, _, h => by
    cases h with
    | list hcd | vector hcd => exact AllAlike.equalWith_eq hab hcd
    | _ => rfl
  | .vector .., _, .vector hab _, _, _, h => by
    cases h with
    | list hcd | vector hcd => exact AllAlike.equalWith_eq hab hcd
    | _ => rfl
  | .map .., _, hab@(.map ..), _, _, h => by
    cases h with
    | map hkeys hvalues =>
      have hcd := entriesAlike_iff.2 ⟨hkeys, hvalues⟩
      rw [equalWith, equalWith, hab.entries.length_eq, hcd.length_eq, EntriesAlike.equalWith_eq hab.entries hcd]
    | _ => rfl

theorem AllAlike.equalWith_eq : ∀ {as bs : List Value}, L.AllAlike n as bs →
    ∀ {cs ds : List Value}, L.AllAlike n cs ds → allEqualWith cells as cs = allEqualWith cells bs ds
  | [], _, .nil, _, _, h => by cases h <;> rfl
  | _ :: _, _, .cons hab habs, _, _, h => by
    cases h with
    | nil => rfl
    | cons hcd hcds => rw [allEqualWith, allEqualWith, Alike.equalWith_eq hab hcd, AllAlike.equalWith_eq habs hcds]

theorem EntriesAlike.equalWith_eq : ∀ {as bs : List (Value × Value)}, L.EntriesAlike n as bs →
    ∀ {cs ds : List (Value × Value)}, L.EntriesAlike n cs ds → entriesWithin cells as cs = entriesWithin cells bs ds
  | [], _, .nil, _, _, _ => rfl
  | (k, v) :: _, (k', v') :: _, .cons hab habs, cs, ds, h => by
    have hfind : Option.Rel (L.EntryAlike n) (cs.find? fun entry => equalWith cells k entry.1)
        (ds.find? fun entry => equalWith cells k' entry.1) :=
      rel_find? (fun a b hcd => Alike.equalWith_eq hab.key hcd.key) h
    rw [entriesWithin, entriesWithin, EntriesAlike.equalWith_eq habs h]
    generalize cs.find? _ = found at hfind
    generalize ds.find? _ = found' at hfind
    cases hfind with
    | none => rfl
    | some hentry => simp only [Alike.equalWith_eq hab.value hentry.value]

end

end Equality

theorem cellsEqual_eq {cells cells' : Array Value} (h : L.CellsAlike n cells cells') (depth : Nat) :
    Value.cellsEqual cells depth = Value.cellsEqual cells' depth := by
  induction depth with
  | zero => rfl
  | succ depth ih =>
    funext a b
    rw [Value.cellsEqual, Value.cellsEqual, ih, (h.each a).equalWith_eq _ (h.each b)]

theorem Alike.equal_eq {cells cells' : Array Value} (h : L.CellsAlike n cells cells') {a b c d : Value}
    (hab : L.Alike n a b) (hcd : L.Alike n c d) : a.equal cells c = b.equal cells' d := by
  rw [Value.equal, Value.equal, cellsEqual_eq h, h.size_eq, hab.equalWith_eq _ hcd]

theorem Alike.sameKey_eq {a b c d : Value} (hab : L.Alike n a b) (hcd : L.Alike n c d) : a.sameKey c = b.sameKey d :=
  hab.equalWith_eq _ hcd

mutual

theorem Alike.isImmutable_eq : ∀ {v w : Value}, L.Alike n v w → v.isImmutable = w.isImmutable
  | .nil, _, .nil | .bool _, _, .bool _ | .int _, _, .int _ | .float _, _, .float _ | .str _, _, .str _
  | .symbol _, _, .symbol _ | .keyword _, _, .keyword _ | .cell _, _, .cell _ | .closure .., _, .closure ..
  | .primitive .., _, .primitive .. => rfl
  | .list .., _, .list h _ => AllAlike.isImmutable_eq h
  | .vector .., _, .vector h _ => AllAlike.isImmutable_eq h
  | .map .., _, h@(.map ..) => EntriesAlike.isImmutable_eq h.entries

theorem AllAlike.isImmutable_eq : ∀ {vs ws : List Value}, L.AllAlike n vs ws →
    Value.allImmutable vs = Value.allImmutable ws
  | [], _, .nil => rfl
  | _ :: _, _, .cons h hs => by
    rw [Value.allImmutable, Value.allImmutable, Alike.isImmutable_eq h, AllAlike.isImmutable_eq hs]

theorem EntriesAlike.isImmutable_eq : ∀ {as bs : List (Value × Value)}, L.EntriesAlike n as bs →
    Value.entriesImmutable as = Value.entriesImmutable bs
  | [], _, .nil => rfl
  | (_, _) :: _, (_, _) :: _, .cons h hs => by
    rw [Value.entriesImmutable, Value.entriesImmutable, Alike.isImmutable_eq h.key, Alike.isImmutable_eq h.value,
      EntriesAlike.isImmutable_eq hs]

end

/-! ## Entries -/

namespace EntriesAlike

variable {as bs : Entries} (h : L.EntriesAlike n as bs) {k k' v v' : Value}

include h

theorem keys : L.AllAlike n (as.map (·.1)) (bs.map (·.1)) := by
  simpa using h.imp fun _ _ h => h.key

theorem values : L.AllAlike n (as.map (·.2)) (bs.map (·.2)) := by
  simpa using h.imp fun _ _ h => h.value

theorem find? (hk : L.Alike n k k') : Option.Rel (L.Alike n) (Entries.find? as k) (Entries.find? bs k') := by
  have hfind : Option.Rel (L.EntryAlike n) (List.find? (fun entry => entry.1.sameKey k) as)
      (List.find? (fun entry => entry.1.sameKey k') bs) := rel_find? (fun _ _ hab => hab.key.sameKey_eq hk) h
  unfold Entries.find?
  generalize List.find? _ as = found at hfind
  generalize List.find? _ bs = found' at hfind
  cases hfind with
  | none => exact .none
  | some h => exact .some h.value

theorem contains_eq (hk : L.Alike n k k') : Entries.contains as k = Entries.contains bs k' := by
  have hfind := h.find? hk
  unfold Entries.contains
  generalize Entries.find? as k = found at hfind
  generalize Entries.find? bs k' = found' at hfind
  cases hfind <;> rfl

theorem insert (hk : L.Alike n k k') (hv : L.Alike n v v') :
    L.EntriesAlike n (Entries.insert k v as) (Entries.insert k' v' bs) := by
  induction h with
  | nil => exact .cons ⟨hk, hv⟩ .nil
  | @cons a b as bs hab hrest ih =>
    rw [Entries.insert, Entries.insert, hab.key.sameKey_eq hk]
    split
    · exact .cons ⟨hab.key, hv⟩ hrest
    · exact .cons hab ih

theorem erase (hk : L.Alike n k k') : L.EntriesAlike n (Entries.erase k as) (Entries.erase k' bs) := by
  induction h with
  | nil => exact .nil
  | @cons a b as bs hab hrest ih =>
    rw [Entries.erase, Entries.erase, hab.key.sameKey_eq hk]
    split
    · exact hrest
    · exact .cons hab ih

theorem merge {cs ds : Entries} (hnew : L.EntriesAlike n cs ds) :
    L.EntriesAlike n (Entries.merge as cs) (Entries.merge bs ds) := by
  unfold Entries.merge
  induction hnew generalizing as bs with
  | nil => exact h
  | cons hab _ ih => exact ih (h.insert hab.key hab.value)

theorem ofList : L.EntriesAlike n (Entries.ofList as) (Entries.ofList bs) := merge .nil h

end EntriesAlike

theorem entriesAlike_pairs : ∀ {vs ws : List Value}, L.AllAlike n vs ws →
    L.EntriesAlike n (Entries.pairs vs) (Entries.pairs ws)
  | [], _, .nil => .nil
  | [_], _, .cons _ .nil => .nil
  | _ :: _ :: _, _, .cons hk (.cons hv hrest) => .cons ⟨hk, hv⟩ (entriesAlike_pairs hrest)

/-! ## Forms that are read -/

theorem alike_of_atomic {v : Value} (h : v.IsAtomic) : L.Alike n v v := by
  cases v with
  | nil => exact .nil
  | bool b => exact .bool b
  | int i => exact .int i
  | float x => exact .float x
  | str text => exact .str text
  | symbol name => exact .symbol name
  | keyword name => exact .keyword name
  | list | vector | map | cell | closure | primitive => exact h.elim

/-- What is read agrees with itself, for the reader makes no functions. -/
theorem alike_holdsOfForms : Source.HoldsOfForms fun v => L.Alike n v v where
  atom h := alike_of_atomic (Source.atomic_of_atomValue h)
  symbol name := .symbol name
  compound := by
    intro b items v hitems h
    have hsame : L.AllAlike n items items := List.forall₂_same.2 hitems
    cases b with
    | round => cases h; exact alike_ofList hsame
    | square => cases h; exact alike_ofVector hsame
    | curly =>
      unfold Source.compound at h
      dsimp only at h
      split at h
      · cases h
        exact alike_ofEntries (entriesAlike_pairs hsame).ofList
      · cases h

end Likeness

end SmallLisp
