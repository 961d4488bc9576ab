/-
Templates by their holes. A regular template has exactly one form in each hole, and a symbol
`unquote` at the beginning of lists and vectors only; then its code is never a fault. What the
template is to become is said without code: `fill` puts values into the holes, and `Reaches` tells
whether the values so far let the next hole be evaluated.
-/
import Mathlib.Data.List.Forall2
import SmallLisp.SpecialForm

namespace SmallLisp

/-- A row is a list or a vector. -/
theorem Value.items?_eq_some {v : Value} {items : List Value} :
    v.items? = some items ↔ ∃ info, v = .list items info ∨ v = .vector items info := by
  cases v <;> simp [items?]

namespace Template

/-! ## Holes -/

/-- A hole: the form in it, and whether the items of its value are put into the row around it. -/
structure Hole where
  form : Value
  isSpliced : Bool

mutual

/-- The holes of a template, from left to right. -/
def holes : Value → List Hole
  | .list items info =>
    match (Value.list items info).argumentsOf? "unquote" with
    | some args => args.map fun form => ⟨form, false⟩
    | none => rowHoles items
  | .vector items _ => rowHoles items
  | _ => []
termination_by structural form => form

def rowHoles : List Value → List Hole
  | [] => []
  | item :: items =>
    (match item.argumentsOf? "splice-unquote" with
    | some args => args.map fun form => ⟨form, true⟩
    | none => holes item) ++ rowHoles items
termination_by structural items => items

end

/-- The items that a value puts into a row; nil puts none. -/
def spliced (v : Value) : List Value := v.items?.getD []

mutual

/-- A template with values in its holes, given from left to right. Constants and empty sequences stay
what they are; every other list or vector becomes a list. -/
def fill : Value → List Value → Value
  | .list [] info, _ => .list [] info
  | .vector [] info, _ => .vector [] info
  | .list (item :: items) info, values =>
    match (Value.list (item :: items) info).argumentsOf? "unquote" with
    | some _ => values.headD .nil
    | none => .ofList (fillRow (item :: items) values)
  | .vector (item :: items) _, values => .ofList (fillRow (item :: items) values)
  | form, _ => form
termination_by structural form => form

def fillRow : List Value → List Value → List Value
  | [], _ => []
  | item :: items, values =>
    match item.argumentsOf? "splice-unquote" with
    | some _ => spliced (values.headD .nil) ++ fillRow items values.tail
    | none =>
      fill item (values.take (holes item).length) :: fillRow items (values.drop (holes item).length)
termination_by structural items => items

end

/-! ## Reaching holes -/

/-- Whether a value fits into a hole: one that is to be spliced must be a list, a vector or nil. -/
def Hole.Fits (hole : Hole) (v : Value) : Prop := hole.isSpliced = true → v = .nil ∨ v.items?.isSome = true

mutual

/-- Whether a template goes on to its next hole when the first ones have got values. Those in rows that
are complete must fit by then; a value that is to be spliced into a row around the next hole is not
looked at yet. -/
def Reaches : Value → List Value → Prop
  | .list items info, values =>
    match (Value.list items info).argumentsOf? "unquote" with
    | some _ => True
    | none => RowReaches items values
  | .vector items _, values => RowReaches items values
  | _, _ => False
termination_by structural form => form

def RowReaches : List Value → List Value → Prop
  | [], _ => False
  | item :: items, values =>
    match item.argumentsOf? "splice-unquote" with
    | some _ => values = [] ∨ RowReaches items values.tail
    | none =>
      if values.length < (holes item).length then Reaches item values
      else List.Forall₂ Hole.Fits (holes item) (values.take (holes item).length) ∧
        RowReaches items (values.drop (holes item).length)
termination_by structural items => items

end

/-! ## Regular templates -/

/-- The templates that are constants, single holes, or rows without a fault. -/
inductive Regular : Value → Prop where
  | constant {form : Value} : form.items?.getD [] = [] → Regular form
  | hole (form info : Value) : Regular (.list [.symbol "unquote", form] info)
  | row {form item : Value} {items : List Value} : form.items? = some (item :: items) →
    form.argumentsOf? "unquote" = none → (∀ late ∈ items, late ≠ .symbol "unquote") →
    (∀ part ∈ item :: items, ∀ args, part.argumentsOf? "splice-unquote" = some args → args.length = 1) →
    (∀ part ∈ item :: items, part.argumentsOf? "splice-unquote" = none → Regular part) → Regular form

/-- The code of a row, unless what is left of it counts as a hole. -/
theorem itemsCode_cons {isList : Bool} {item : Value} (h : isList = false ∨ item ≠ .symbol "unquote")
    (items : List Value) : itemsCode isList (item :: items) =
      (match item.argumentsOf? "splice-unquote" with
      | some args => do
        let spliced ← hole "splice-unquote" args
        let rest ← itemsCode true items
        .ok (.ofList [.symbol "concat", spliced, rest])
      | none => do
        let first ← code item
        let rest ← itemsCode true items
        .ok (.ofList [.symbol "cons", first, rest])) := by
  have hrow : isList = true → item ≠ .symbol "unquote" := by
    rintro rfl
    exact h.resolve_left (by decide)
  refine (itemsCode.eq_def isList (item :: items)).trans ?_
  dsimp only
  split
  · exact absurd rfl (hrow rfl)
  · cases item.argumentsOf? "splice-unquote" <;> rfl

/-- A symbol `unquote` at the beginning is all that makes the code of a list differ from that of a vector. -/
theorem itemsCode_isList {items : List Value} (h : ∀ item ∈ items.head?, item ≠ .symbol "unquote") :
    itemsCode true items = itemsCode false items := by
  cases items with
  | nil => rfl
  | cons item items => exact (itemsCode_cons (.inr (h item rfl)) items).trans (itemsCode_cons (.inl rfl) items).symm

/-- How a row may go on: with a form to be spliced, or with a template of its own. -/
theorem row_cases {item : Value} (h : ∀ args, item.argumentsOf? "splice-unquote" = some args → args.length = 1) :
    (∃ form, item.argumentsOf? "splice-unquote" = some [form]) ∨ item.argumentsOf? "splice-unquote" = none := by
  cases hitem : item.argumentsOf? "splice-unquote" with
  | none => exact .inr rfl
  | some args =>
    obtain ⟨form, rfl⟩ := List.length_eq_one_iff.1 (h args hitem)
    exact .inl ⟨form, rfl⟩

/-- Induction on a regular template together with the rows in it, from behind. -/
theorem Regular.rowInduction {P : Value → Prop} {Q : List Value → Prop} {t : Value} (h : Regular t)
    (constant : ∀ form : Value, form.items?.getD [] = [] → P form)
    (hole : ∀ form info, P (.list [.symbol "unquote", form] info))
    (row : ∀ form item items, form.items? = some (item :: items) → form.argumentsOf? "unquote" = none →
      Q (item :: items) → P form)
    (nil : Q [])
    (spliced : ∀ item form items, item.argumentsOf? "splice-unquote" = some [form] →
      (∀ late ∈ items, late ≠ .symbol "unquote") → Q items → Q (item :: items))
    (single : ∀ item items, item.argumentsOf? "splice-unquote" = none →
      (∀ late ∈ items, late ≠ .symbol "unquote") → Regular item → P item → Q items → Q (item :: items)) : P t := by
  have hrow : ∀ items : List Value, (∀ late ∈ items.tail, late ≠ .symbol "unquote") →
      (∀ part ∈ items, ∀ args, part.argumentsOf? "splice-unquote" = some args → args.length = 1) →
      (∀ part ∈ items, part.argumentsOf? "splice-unquote" = none → Regular part ∧ P part) → Q items := by
    intro items
    induction items with
    | nil => exact fun _ _ _ => nil
    | cons item items ih =>
      intro hlate hsplices heach
      obtain ⟨hsplice, hsplices⟩ := List.forall_mem_cons.1 hsplices
      obtain ⟨hitem, heach⟩ := List.forall_mem_cons.1 heach
      have hrest := ih (fun late h => hlate late (List.mem_of_mem_tail h)) hsplices heach
      rcases row_cases hsplice with ⟨form, hform⟩ | hnone
      · exact spliced item form items hform hlate hrest
      · obtain ⟨hregular, hP⟩ := hitem hnone
        exact single item items hnone hlate hregular hP hrest
  induction h with
  | constant hform => exact constant _ hform
  | hole form info => exact hole form info
  | row hitems hhead hlate hsplices hparts ih =>
    exact row _ _ _ hitems hhead (hrow _ hlate hsplices fun part hpart hnone =>
      ⟨hparts part hpart hnone, ih part hpart hnone⟩)

/-! ## The code of a regular template -/

section Constant

variable {form : Value} (h : form.items?.getD [] = [])
include h

theorem holes_constant : holes form = [] := by
  cases form with
  | list items | vector items =>
    obtain rfl : items = [] := h
    rfl
  | _ => rfl

theorem fill_constant (values : List Value) : fill form values = form := by
  cases form with
  | list items | vector items =>
    obtain rfl : items = [] := h
    rfl
  | _ => rfl

theorem reaches_constant (values : List Value) : Reaches form values = False := by
  cases form with
  | list items | vector items =>
    obtain rfl : items = [] := h
    rfl
  | _ => rfl

theorem code_constant : code form = .ok (quoting form) := by
  cases form with
  | list items | vector items =>
    obtain rfl : items = [] := h
    rfl
  | _ => rfl

end Constant

section Row

variable {form item : Value} {items : List Value} (hitems : form.items? = some (item :: items))
  (hhead : form.argumentsOf? "unquote" = none)
include hitems hhead

theorem holes_row : holes form = rowHoles (item :: items) := by
  obtain ⟨info, rfl | rfl⟩ := Value.items?_eq_some.1 hitems
  · rw [holes, hhead]
  · rfl

theorem fill_row (values : List Value) : fill form values = .ofList (fillRow (item :: items) values) := by
  obtain ⟨info, rfl | rfl⟩ := Value.items?_eq_some.1 hitems
  · rw [fill, hhead]
  · rfl

theorem reaches_row : Reaches form = RowReaches (item :: items) := by
  funext values
  obtain ⟨info, rfl | rfl⟩ := Value.items?_eq_some.1 hitems
  · rw [Reaches, hhead]
  · rfl

theorem code_row : code form = itemsCode false (item :: items) := by
  obtain ⟨info, rfl | rfl⟩ := Value.items?_eq_some.1 hitems
  · refine itemsCode_isList fun first hfirst => ?_
    obtain rfl : item = first := Option.some.inj hfirst
    rintro rfl
    cases hhead
  · rfl

end Row

section Spliced

variable {item form : Value} (h : item.argumentsOf? "splice-unquote" = some [form]) (items : List Value)
include h

theorem rowHoles_spliced : rowHoles (item :: items) = ⟨form, true⟩ :: rowHoles items := by
  rw [rowHoles, h]
  rfl

theorem fillRow_spliced (values : List Value) :
    fillRow (item :: items) values = spliced (values.headD .nil) ++ fillRow items values.tail := by
  rw [fillRow, h]

theorem rowReaches_spliced (values : List Value) :
    RowReaches (item :: items) values = (values = [] ∨ RowReaches items values.tail) := by
  rw [RowReaches, h]

end Spliced

section Single

variable {item : Value} (h : item.argumentsOf? "splice-unquote" = none) (items : List Value)
include h

theorem rowHoles_single : rowHoles (item :: items) = holes item ++ rowHoles items := by
  rw [rowHoles, h]

theorem fillRow_single (values : List Value) : fillRow (item :: items) values =
    fill item (values.take (holes item).length) :: fillRow items (values.drop (holes item).length) := by
  rw [fillRow, h]

theorem rowReaches_single (values : List Value) : RowReaches (item :: items) values =
    if values.length < (holes item).length then Reaches item values
    else List.Forall₂ Hole.Fits (holes item) (values.take (holes item).length) ∧
      RowReaches items (values.drop (holes item).length) := by
  rw [RowReaches, h]

end Single

end Template

end SmallLisp
