/-
Templates without holes. A template that is read from a text, with no list in it headed by a mark of a
hole, stands for itself: quasiquoted, it comes to a value that equals it (`quasiquote_data`). This fails
where `unquote` comes later in a row, because what is left of the row there counts as a hole
(`quasiquote_lateUnquote`).
-/
import SmallLisp.Proofs.Evaluation.Template
import SmallLisp.Proofs.Source.Comparable

namespace SmallLisp

open Run (Comes)
open Template
open Value (Comparable)

/-! ## Templates without holes -/

namespace Template

/-- Whether a form is found in a template through lists and vectors, or is the template. -/
def Nested : Value → Value → Prop :=
  Relation.ReflTransGen fun inner outer => ∃ items, outer.items? = some items ∧ inner ∈ items

/-- A property of the template and of all that is nested in it. -/
def Everywhere (P : Value → Prop) (t : Value) : Prop := ∀ part, Nested part t → P part

/-- No list headed by the mark of a hole. -/
def IsNoHole (part : Value) : Prop :=
  part.argumentsOf? "unquote" = none ∧ part.argumentsOf? "splice-unquote" = none

/-- No row with a symbol `unquote` behind its first item. -/
def UnquoteLeads (part : Value) : Prop := ∀ items, part.items? = some items → .symbol "unquote" ∉ items.tail

variable {P : Value → Prop} {t part : Value} {items : List Value}

theorem nested_self (t : Value) : Nested t t := .refl

theorem Nested.within (h : Nested part t) {outer : Value} (hitems : outer.items? = some items) (ht : t ∈ items) :
    Nested part outer :=
  h.tail ⟨items, hitems, ht⟩

theorem nested_iff : Nested part t ↔ part = t ∨ ∃ items, t.items? = some items ∧ ∃ item ∈ items, Nested part item := by
  refine (Relation.ReflTransGen.cases_tail_iff _ _ _).trans (or_congr eq_comm ?_)
  constructor
  · rintro ⟨item, hpart, items, hitems, hitem⟩
    exact ⟨items, hitems, item, hitem, hpart⟩
  · rintro ⟨items, hitems, item, hitem, hpart⟩
    exact ⟨item, hpart, items, hitems, hitem⟩

theorem nested_inside (h : Nested part t) : part.Inside t := by
  induction h with
  | refl => exact .refl
  | @tail inner outer _ hitems ih =>
    obtain ⟨items, hitems, hinner⟩ := hitems
    refine ih.tail ?_
    obtain ⟨info, rfl | rfl⟩ := Value.items?_eq_some.1 hitems <;> exact List.mem_cons_of_mem _ hinner

namespace Everywhere

theorem here (h : Everywhere P t) : P t := h t (nested_self t)

theorem of_mem (h : Everywhere P t) (hitems : t.items? = some items) : ∀ item ∈ items, Everywhere P item :=
  fun _ hitem part hpart => h part (hpart.within hitems hitem)

end Everywhere

theorem everywhere_sequence (ht : t.items? = some items) :
    Everywhere P t ↔ P t ∧ ∀ item ∈ items, Everywhere P item := by
  refine ⟨fun h => ⟨h.here, h.of_mem ht⟩, fun ⟨hself, hitems⟩ part hpart => ?_⟩
  rcases nested_iff.1 hpart with rfl | ⟨_, hsame, item, hitem, hpart⟩
  · exact hself
  · cases ht.symm.trans hsame
    exact hitems item hitem part hpart

@[simp] theorem everywhere_list {info : Value} :
    Everywhere P (.list items info) ↔ P (.list items info) ∧ ∀ item ∈ items, Everywhere P item :=
  everywhere_sequence rfl

@[simp] theorem everywhere_vector {info : Value} :
    Everywhere P (.vector items info) ↔ P (.vector items info) ∧ ∀ item ∈ items, Everywhere P item :=
  everywhere_sequence rfl

theorem everywhere_scalar (ht : t.items? = none) : Everywhere P t ↔ P t := by
  refine ⟨Everywhere.here, fun h part hpart => ?_⟩
  rcases nested_iff.1 hpart with rfl | ⟨items, hitems, -⟩
  · exact h
  · rw [ht] at hitems
    cases hitems

@[simp] theorem everywhere_symbol (name : String) : Everywhere P (.symbol name) ↔ P (.symbol name) :=
  everywhere_scalar rfl

@[simp] theorem everywhere_int (n : Int) : Everywhere P (.int n) ↔ P (.int n) := everywhere_scalar rfl

/-! ## Filling nothing in -/

/-- A row without holes is regular if its items are. -/
theorem regular_row {item : Value} (hitems : t.items? = some (item :: items)) (hfree : Everywhere IsNoHole t)
    (hleads : UnquoteLeads t) (hparts : ∀ part ∈ item :: items, Regular part) : Regular t := by
  refine .row hitems hfree.here.1 ?late ?splices fun part hpart _ => hparts part hpart
  case late =>
    rintro late hmem rfl
    exact hleads _ hitems hmem
  case splices =>
    intro part hpart args hargs
    rw [(hfree.of_mem hitems part hpart).here.2] at hargs
    cases hargs

/-- Nothing but a late `unquote` keeps a template without holes from being regular. -/
theorem regular_of_isNoHole (t : Value) (hfree : Everywhere IsNoHole t) (hleads : Everywhere UnquoteLeads t) :
    Regular t := by
  match t with
  | .list (item :: items) info =>
    exact regular_row rfl hfree hleads.here fun part hpart =>
      regular_of_isNoHole part (hfree.of_mem rfl part hpart) (hleads.of_mem rfl part hpart)
  | .vector (item :: items) info =>
    exact regular_row rfl hfree hleads.here fun part hpart =>
      regular_of_isNoHole part (hfree.of_mem rfl part hpart) (hleads.of_mem rfl part hpart)
  | .list [] _ | .vector [] _ | .nil | .bool _ | .int _ | .float _ | .str _ | .symbol _ | .keyword _ | .map ..
  | .cell _ | .closure .. | .primitive .. => exact .constant rfl
termination_by t

/-- A template without holes has nothing to be filled in, and as it stands it equals itself. -/
theorem fill_isNoHole {cells : Array Value} {t : Value} (h : Regular t) : Everywhere IsNoHole t →
    Everywhere (Comparable cells) t → holes t = [] ∧ Value.equal cells (fill t []) t = true := by
  refine h.rowInduction
    (P := fun t => Everywhere IsNoHole t → Everywhere (Comparable cells) t →
      holes t = [] ∧ Value.equal cells (fill t []) t = true)
    (Q := fun items => (∀ item ∈ items, Everywhere IsNoHole item ∧ Everywhere (Comparable cells) item) →
      rowHoles items = [] ∧ Value.AllEqual cells (fillRow items []) items)
    ?constant ?hole ?row ?nil ?spliced ?single
  case constant =>
    intro form hform _ hcomparable
    rw [fill_constant hform]
    exact ⟨holes_constant hform, hcomparable.here.equal_self⟩
  case hole =>
    intro form info hfree
    cases hfree.here.1
  case row =>
    intro form item items hitems hhead ih hfree hcomparable
    obtain ⟨hholes, hequal⟩ := ih fun part hpart => ⟨hfree.of_mem hitems part hpart,
      hcomparable.of_mem hitems part hpart⟩
    rw [holes_row hitems hhead, fill_row hitems hhead]
    exact ⟨hholes, (Value.equal_sequence rfl form).2 ⟨_, hitems, hequal⟩⟩
  case nil => exact fun _ => ⟨rfl, .nil⟩
  case spliced =>
    intro item form items hitem _ _ heach
    rw [(heach item List.mem_cons_self).1.here.2] at hitem
    cases hitem
  case single =>
    intro item items hitem _ _ ihitem ih heach
    obtain ⟨⟨hfree, hcomparable⟩, hrest⟩ := List.forall_mem_cons.1 heach
    obtain ⟨hholes, hequal⟩ := ihitem hfree hcomparable
    obtain ⟨hrowHoles, hrow⟩ := ih hrest
    rw [rowHoles_single hitem, hholes, hrowHoles, fillRow_single hitem, List.take_nil, List.drop_nil]
    exact ⟨rfl, .cons hequal hrow⟩

end Template

/-! ## Quasiquoting -/

/-- A template without holes that was read from a text comes to a value that equals it, and to nothing else;
evaluating it changes nothing. It does not matter where else the symbols `unquote` and `splice-unquote` stand
in it, as long as `unquote` comes first in its row. -/
theorem quasiquote_data {text : String} {form t : Value} (hform : form ∈ (Source.readAll text).forms)
    (ht : t.Inside form) (hfree : Everywhere IsNoHole t) (hleads : Everywhere UnquoteLeads t) {s : State}
    {frame : FrameId} (hbuilders : s.HasBuilders frame) (info : Value) :
    ∃ v, Value.equal s.cells v t = true ∧
      ∀ o, Comes (fun n => evaluate n (.list [.symbol "quasiquote", t] info) frame) s o ↔ o = .value v s := by
  have hregular := regular_of_isNoHole t hfree hleads
  obtain ⟨hholes, hequal⟩ := fill_isNoHole hregular hfree fun part hpart =>
    Source.readAll_comparable text s.cells form hform part ((nested_inside hpart).trans ht)
  have hkeeps : s.KeepsBuilders frame (holes t) := by
    rw [hholes]
    exact .of_unchanged hbuilders fun _ hnone => absurd hnone List.not_mem_nil
  have hrebuild : ∀ n, rebuild (evaluate n) frame t s = .value (fill t []) s := by
    intro n
    refine ((rebuild_fills hregular).value_iff s _ s).2 ⟨[], ?_⟩
    rw [hholes]
    exact ⟨rfl, .nil, rfl⟩
  refine ⟨fill t [], hequal, fun o => (quasiquote_comes hregular hkeeps info o).trans ?_⟩
  constructor
  · rintro ⟨n, rfl, -⟩
    exact hrebuild n
  · rintro rfl
    exact ⟨0, hrebuild 0, trivial⟩

/-- The template `([unquote 1] (a splice-unquote b))`. -/
def headedVector : Value :=
  .ofList [.ofVector [.symbol "unquote", .int 1], .ofList [.symbol "a", .symbol "splice-unquote", .symbol "b"]]

theorem quasiquote_data_headedVector :
    let s := State.initial [] (.tree []) "" true 0
    headedVector ∈ (Source.readAll "([unquote 1] (a splice-unquote b))").forms ∧
      Everywhere IsNoHole headedVector ∧ Everywhere UnquoteLeads headedVector ∧ s.HasBuilders rootFrame ∧
      ∃ v, Value.equal s.cells v headedVector = true ∧
        Comes (fun n => evaluate n (.ofList [.symbol "quasiquote", headedVector]) rootFrame) s (.value v s) := by
  intro s
  have hread : Source.readAll "([unquote 1] (a splice-unquote b))" = ⟨[headedVector], none, []⟩ := by rfl
  have hmem : headedVector ∈ (Source.readAll "([unquote 1] (a splice-unquote b))").forms := by
    rw [hread]
    exact List.mem_singleton_self _
  have hfree : Everywhere IsNoHole headedVector := by
    simp [headedVector, Value.ofList, Value.ofVector, IsNoHole, Value.argumentsOf?]
  have hleads : Everywhere UnquoteLeads headedVector := by
    simp [headedVector, Value.ofList, Value.ofVector, UnquoteLeads, Value.items?]
  have hbuilders : s.HasBuilders rootFrame := State.initial_hasBuilders _ _ _ _ _
  obtain ⟨v, hequal, hcomes⟩ := quasiquote_data hmem (Value.inside_iff.2 (.inl rfl)) hfree hleads hbuilders .nil
  exact ⟨hmem, hfree, hleads, hbuilders, v, hequal, (hcomes _).2 rfl⟩

/-- The template `(1 unquote [2])`. -/
def lateUnquote : Value := .ofList [.int 1, .symbol "unquote", .ofVector [.int 2]]

/-- It has no hole, but what it comes to is `(1 2)`, and that is another value. -/
theorem quasiquote_lateUnquote :
    let s := State.initial [] (.tree []) "" true 0
    (Source.readAll "(1 unquote [2])").forms = [lateUnquote] ∧ Everywhere IsNoHole lateUnquote ∧
      s.HasBuilders rootFrame ∧
      (∀ o, Comes (fun n => evaluate n (.ofList [.symbol "quasiquote", lateUnquote]) rootFrame) s o ↔
        o = .value (.ofList [.int 1, .int 2]) s) ∧
      Value.equal s.cells (.ofList [.int 1, .int 2]) lateUnquote = false := by
  intro s
  have hread : Source.readAll "(1 unquote [2])" = ⟨[lateUnquote], none, []⟩ := by rfl
  have hfree : Everywhere IsNoHole lateUnquote := by
    simp [lateUnquote, Value.ofList, Value.ofVector, IsNoHole, Value.argumentsOf?]
  have hvalue : evaluate 4 (.ofList [.symbol "quasiquote", lateUnquote]) rootFrame s =
      .value (.ofList [.int 1, .int 2]) s := by rfl
  refine ⟨by rw [hread], hfree, State.initial_hasBuilders _ _ _ _ _, fun o => ?_, by rfl⟩
  constructor
  · rintro ⟨n, rfl, hend⟩
    -- the form ends in one way only
    exact (evaluate_unique hend (by rw [hvalue]; trivial)).trans hvalue
  · rintro rfl
    exact ⟨4, hvalue, trivial⟩

end SmallLisp
