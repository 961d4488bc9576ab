/-
Templates rebuilt without code: `rebuild` evaluates each hole once, from left to right, and makes the
rows from what they come to. Main statement: it fills the template (`rebuild_fills`), which means that
it ends with the filled template exactly if all holes get values that fit, that the fault of a hole
comes out if the hole is reached, and that no other fault comes out but for a value that does not fit.
-/
import SmallLisp.Proofs.Evaluation.Rules
import SmallLisp.Proofs.Template.Holes

namespace SmallLisp

open Template

/-! ## Rows -/

theorem forall₂_append_iff {α β : Type} {R : α → β → Prop} {as bs : List α} {cs ds : List β}
    (hlength : as.length = cs.length) :
    List.Forall₂ R (as ++ bs) (cs ++ ds) ↔ List.Forall₂ R as cs ∧ List.Forall₂ R bs ds := by
  constructor
  · intro h
    have htake := List.forall₂_take_append _ cs ds h
    have hdrop := List.forall₂_drop_append _ cs ds h
    rw [← hlength] at htake hdrop
    rw [List.take_left] at htake
    rw [List.drop_left] at hdrop
    exact ⟨htake, hdrop⟩
  · rintro ⟨has, hbs⟩
    exact List.rel_append has hbs

/-- An item of two rows put together is behind the first row, or in it. -/
theorem append_eq_append_cons {α : Type} {as bs before after : List α} {a : α} (h : as ++ bs = before ++ a :: after) :
    (∃ between, before = as ++ between ∧ bs = between ++ a :: after) ∨ ∃ between, as = before ++ a :: between := by
  rcases List.append_eq_append_iff.1 h with hbehind | ⟨between, rfl, hbetween⟩
  · exact .inl hbehind
  · rcases List.cons_eq_append_iff.1 hbetween with ⟨rfl, rfl⟩ | ⟨between, rfl, _⟩
    · exact .inl ⟨[], by simp, rfl⟩
    · exact .inr ⟨between, rfl⟩

/-! ## Values and faults of holes -/

theorem sequence_eq_value {name : String} {v : Value} {items : List Value} {s s' : State} :
    Run.sequence name v s = .value items s' ↔
      (v = .nil ∨ v.items?.isSome = true) ∧ items = spliced v ∧ s' = s := by
  unfold Run.sequence
  cases v with
  | nil | list | vector =>
    constructor
    · intro h
      cases h
      exact ⟨by simp [Value.items?], rfl, rfl⟩
    · rintro ⟨_, rfl, rfl⟩
      rfl
  | _ =>
    simp only [Value.items?, Run.failShowing, Run.bind_eq_value]
    constructor
    · rintro ⟨_, _, _, hfail⟩
      cases hfail
    · rintro ⟨h, _⟩
      rcases h with h | h <;> cases h

section Holes

variable (eval : Evaluator) (frame : FrameId)

/-- The values of the holes, from left to right. -/
def evalHoles (holes : List Hole) : Run (List Value) := evalEach eval frame (holes.map Hole.form)

/-- How a template fails. Some holes get values, from the left; then the next one raises a fault, or
the value of one of them does not fit. -/
def Template.Fails (holes : List Hole) (s : State) (fault : Fault) (s' : State) : Prop :=
  ∃ before after values t, holes = before ++ after ∧ evalHoles eval frame before s = .value values t ∧
    ((∃ hole rest, after = hole :: rest ∧ eval hole.form frame t = .fault fault s') ∨
      ∃ hole v, (hole, v) ∈ before.zip values ∧ ¬hole.Fits v ∧ Run.sequence "concat" v t = .fault fault s')

/-- A run fills holes: it makes something of the values of all holes, if they fit. A fault of a hole
comes out if the values before make the run reach that hole. -/
structure Run.Fills {α : Type} (x : Run α) (holes : List Hole) (fill : List Value → α) (reaches : List Value → Prop) :
    Prop where
  value_iff : ∀ (s : State) (a : α) (s' : State), x s = .value a s' ↔
    ∃ values, evalHoles eval frame holes s = .value values s' ∧ List.Forall₂ Hole.Fits holes values ∧ a = fill values
  fault : ∀ (before : List Hole) (hole : Hole) (after : List Hole) (values : List Value) (s t : State) (fault : Fault)
    (s' : State), holes = before ++ hole :: after → evalHoles eval frame before s = .value values t →
    reaches values → eval hole.form frame t = .fault fault s' → x s = .fault fault s'
  fails : ∀ (s : State) (fault : Fault) (s' : State), x s = .fault fault s' → Fails eval frame holes s fault s'

variable {eval frame}

theorem evalHoles_cons_value {hole : Hole} {holes : List Hole} {values : List Value} {s s' : State} :
    evalHoles eval frame (hole :: holes) s = .value values s' ↔ ∃ v vs t, eval hole.form frame s = .value v t ∧
      evalHoles eval frame holes t = .value vs s' ∧ v :: vs = values := evalEach_cons_value

theorem evalHoles_append_value {as bs : List Hole} {values : List Value} {s s' : State} :
    evalHoles eval frame (as ++ bs) s = .value values s' ↔ ∃ vs ws t, evalHoles eval frame as s = .value vs t ∧
      evalHoles eval frame bs t = .value ws s' ∧ vs ++ ws = values := by
  rw [evalHoles, List.map_append]
  exact evalEach_append_value

theorem length_of_evalHoles {holes : List Hole} {values : List Value} {s s' : State}
    (h : evalHoles eval frame holes s = .value values s') : values.length = holes.length :=
  (length_of_evalEach h).trans (List.length_map _)

namespace Template.Fails

variable {as bs : List Hole} {s s' : State} {fault : Fault}

theorem left (h : Fails eval frame as s fault s') : Fails eval frame (as ++ bs) s fault s' := by
  obtain ⟨before, after, values, t, rfl, hvalues, hfault⟩ := h
  refine ⟨before, after ++ bs, values, t, List.append_assoc before after bs, hvalues, hfault.imp_left ?_⟩
  rintro ⟨hole, rest, rfl, hraised⟩
  exact ⟨hole, rest ++ bs, rfl, hraised⟩

theorem right {vs : List Value} {t : State} (hvs : evalHoles eval frame as s = .value vs t)
    (h : Fails eval frame bs t fault s') : Fails eval frame (as ++ bs) s fault s' := by
  obtain ⟨before, after, values, u, rfl, hvalues, hfault⟩ := h
  refine ⟨as ++ before, after, vs ++ values, u, (List.append_assoc as before after).symm,
    evalHoles_append_value.2 ⟨vs, values, t, hvs, hvalues, rfl⟩, hfault.imp_right ?_⟩
  rintro ⟨hole, v, hmem, hmisfit⟩
  rw [List.zip_append (length_of_evalHoles hvs).symm]
  exact ⟨hole, v, List.mem_append_right _ hmem, hmisfit⟩

end Template.Fails

/-! ## Filling -/

namespace Run.Fills

variable {α β γ : Type}

theorem constant (a : α) : Fills eval frame (pure a) [] (fun _ => a) fun _ => False where
  value_iff s b s' := by
    constructor
    · intro h
      cases h
      exact ⟨[], rfl, .nil, rfl⟩
    · rintro ⟨values, hvalues, _, rfl⟩
      cases hvalues
      rfl
  fault before hole after _ _ _ _ _ hholes := by
    cases before <;> cases hholes
  fails s fault s' h := by cases h

theorem single (form : Value) :
    Fills eval frame (eval form frame) [⟨form, false⟩] (fun values => values.headD .nil) fun _ => True where
  value_iff s v s' := by
    constructor
    · intro hv
      refine ⟨[v], evalHoles_cons_value.2 ⟨v, [], s', hv, rfl, rfl⟩, .cons ?_ .nil, rfl⟩
      intro hspliced
      cases hspliced
    · rintro ⟨_, hvalues, _, rfl⟩
      obtain ⟨v, _, t, hv, hnil, rfl⟩ := evalHoles_cons_value.1 hvalues
      cases hnil
      exact hv
  fault before hole after _ _ _ _ _ hholes hvalues _ hfault := by
    cases before with
    | nil =>
      cases hholes
      cases hvalues
      exact hfault
    | cons => simp at hholes
  fails s fault s' h := ⟨[], _, [], s, rfl, rfl, .inl ⟨_, [], rfl, h⟩⟩

theorem map {x : Run α} {holes : List Hole} {fill : List Value → α} {reaches : List Value → Prop}
    (h : Fills eval frame x holes fill reaches) (f : α → β) :
    Fills eval frame (do return f (← x)) holes (fun values => f (fill values)) reaches where
  value_iff s b s' := by
    rw [Run.bind_eq_value]
    constructor
    · rintro ⟨a, _, ha, hpure⟩
      cases hpure
      obtain ⟨values, hvalues, hfit, rfl⟩ := (h.value_iff s a _).1 ha
      exact ⟨values, hvalues, hfit, rfl⟩
    · rintro ⟨values, hvalues, hfit, rfl⟩
      exact ⟨_, s', (h.value_iff s _ s').2 ⟨values, hvalues, hfit, rfl⟩, rfl⟩
  fault before hole after values s t fault s' hholes hvalues hreaches hfault :=
    Run.bind_eq_fault.2 (.inl (h.fault before hole after values s t fault s' hholes hvalues hreaches hfault))
  fails s fault s' hfault := by
    rcases Run.bind_eq_fault.1 hfault with hfault | ⟨_, _, _, hpure⟩
    · exact h.fails s fault s' hfault
    · cases hpure

/-- Holes that are filled one row after the other: the values of the first row must fit for the second
to be reached. -/
theorem append {x : Run α} {y : Run β} {as bs : List Hole} {fill : List Value → α} {fill' : List Value → β}
    {reaches reaches' : List Value → Prop} (hx : Fills eval frame x as fill reaches)
    (hy : Fills eval frame y bs fill' reaches') (f : α → β → γ) :
    Fills eval frame (do let a ← x; let b ← y; return f a b) (as ++ bs)
      (fun values => f (fill (values.take as.length)) (fill' (values.drop as.length)))
      (fun values => if values.length < as.length then reaches values
        else List.Forall₂ Hole.Fits as (values.take as.length) ∧ reaches' (values.drop as.length)) where
  value_iff s c s' := by
    simp only [Run.bind_eq_value, evalHoles_append_value]
    constructor
    · rintro ⟨a, t, ha, b, _, hb, hpure⟩
      cases hpure
      obtain ⟨vs, hvs, hvsFit, rfl⟩ := (hx.value_iff s a t).1 ha
      obtain ⟨ws, hws, hwsFit, rfl⟩ := (hy.value_iff t b _).1 hb
      refine ⟨vs ++ ws, ⟨vs, ws, t, hvs, hws, rfl⟩, List.rel_append hvsFit hwsFit, ?_⟩
      rw [← length_of_evalHoles hvs, List.take_left, List.drop_left]
    · rintro ⟨_, ⟨vs, ws, t, hvs, hws, rfl⟩, hfit, rfl⟩
      obtain ⟨hvsFit, hwsFit⟩ := (forall₂_append_iff (length_of_evalHoles hvs).symm).1 hfit
      rw [← length_of_evalHoles hvs, List.take_left, List.drop_left]
      exact ⟨_, t, (hx.value_iff s _ t).2 ⟨vs, hvs, hvsFit, rfl⟩, _, s', (hy.value_iff t _ s').2 ⟨ws, hws, hwsFit, rfl⟩,
        rfl⟩
  fault before hole after values s t fault s' hholes hvalues hreaches hfault := by
    have hlength := length_of_evalHoles hvalues
    rcases append_eq_append_cons hholes with ⟨between, rfl, hbs⟩ | ⟨between, rfl⟩
    · obtain ⟨vs, ws, u, hvs, hws, rfl⟩ := evalHoles_append_value.1 hvalues
      rw [if_neg (by rw [hlength, List.length_append]; omega), ← length_of_evalHoles hvs, List.take_left,
        List.drop_left] at hreaches
      have ha := (hx.value_iff s _ u).2 ⟨vs, hvs, hreaches.1, rfl⟩
      have hb := hy.fault between hole after ws u t fault s' hbs hws hreaches.2 hfault
      exact Run.bind_eq_fault.2 (.inr ⟨_, u, ha, Run.bind_eq_fault.2 (.inl hb)⟩)
    · rw [if_pos (by rw [hlength, List.length_append, List.length_cons]; omega)] at hreaches
      exact Run.bind_eq_fault.2 (.inl (hx.fault before hole between values s t fault s' rfl hvalues hreaches hfault))
  fails s fault s' hfault := by
    simp only [Run.bind_eq_fault] at hfault
    rcases hfault with ha | ⟨a, t, ha, hb | ⟨_, _, _, hpure⟩⟩
    · exact (hx.fails s fault s' ha).left
    · obtain ⟨vs, hvs, _⟩ := (hx.value_iff s a t).1 ha
      exact (hy.fails t fault s' hb).right hvs
    · cases hpure

/-- A value that is put into the row behind it when the rest of that row is there; until then it does
not have to fit. -/
theorem splice {y : Run (List Value)} {holes : List Hole} {fill : List Value → List Value}
    {reaches : List Value → Prop} (h : Fills eval frame y holes fill reaches) (form : Value) :
    Fills eval frame
      (do
        let value ← eval form frame
        let row ← y
        return (← Run.sequence "concat" value) ++ row)
      (⟨form, true⟩ :: holes) (fun values => spliced (values.headD .nil) ++ fill values.tail)
      (fun values => values = [] ∨ reaches values.tail) where
  value_iff s row s' := by
    simp only [Run.bind_eq_value, sequence_eq_value, evalHoles_cons_value]
    constructor
    · rintro ⟨v, t, hv, rest, _, hrest, _, _, ⟨hfits, rfl, rfl⟩, hpure⟩
      cases hpure
      obtain ⟨values, hvalues, hfit, rfl⟩ := (h.value_iff t rest _).1 hrest
      exact ⟨v :: values, ⟨v, values, t, hv, hvalues, rfl⟩, .cons (fun _ => hfits) hfit, rfl⟩
    · rintro ⟨_, ⟨v, values, t, hv, hvalues, rfl⟩, hfit, rfl⟩
      obtain ⟨hfits, hfit⟩ := List.forall₂_cons.1 hfit
      exact ⟨v, t, hv, _, s', (h.value_iff t _ s').2 ⟨values, hvalues, hfit, rfl⟩, _, s', ⟨hfits rfl, rfl, rfl⟩, rfl⟩
  fault before hole after values s t fault s' hholes hvalues hreaches hfault := by
    rcases List.cons_eq_append_iff.1 hholes with ⟨rfl, hhead⟩ | ⟨before, rfl, hrest⟩
    · cases hhead
      cases hvalues
      exact Run.bind_eq_fault.2 (.inl hfault)
    · obtain ⟨v, vs, u, hv, hvs, rfl⟩ := evalHoles_cons_value.1 hvalues
      have hreachesRest := hreaches.resolve_left (List.cons_ne_nil v vs)
      have hrow := h.fault before hole after vs u t fault s' hrest hvs hreachesRest hfault
      exact Run.bind_eq_fault.2 (.inr ⟨v, u, hv, Run.bind_eq_fault.2 (.inl hrow)⟩)
  fails s fault s' hfault := by
    simp only [Run.bind_eq_fault] at hfault
    rcases hfault with hv | ⟨v, t, hv, hrow | ⟨row, u, hrow, hmisfit | ⟨_, _, _, hpure⟩⟩⟩
    · exact ⟨[], _, [], s, rfl, rfl, .inl ⟨_, _, rfl, hv⟩⟩
    · have hvalue : evalHoles eval frame [⟨form, true⟩] s = .value [v] t :=
        evalHoles_cons_value.2 ⟨v, [], t, hv, rfl, rfl⟩
      exact (h.fails t fault s' hrow).right hvalue
    · obtain ⟨values, hvalues, _⟩ := (h.value_iff t row u).1 hrow
      refine ⟨⟨form, true⟩ :: holes, [], v :: values, u, by simp,
        evalHoles_cons_value.2 ⟨v, values, t, hv, hvalues, rfl⟩, .inr ⟨_, v, List.mem_cons_self, ?_, hmisfit⟩⟩
      intro hfits
      have hvalue : Run.sequence "concat" v u = .value (spliced v) u := sequence_eq_value.2 ⟨hfits rfl, rfl, rfl⟩
      rw [hvalue] at hmisfit
      cases hmisfit
    · cases hpure

end Run.Fills

/-! ## Rebuilding -/

mutual

/-- Rebuilds a template around the values of its holes. A value that is to be spliced is looked at
when all that follows in its row has been rebuilt. -/
def rebuild (eval : Evaluator) (frame : FrameId) : Value → Run Value
  | .list [] info => pure (.list [] info)
  | .vector [] info => pure (.vector [] info)
  | .list (item :: items) info =>
    match (Value.list (item :: items) info).argumentsOf? "unquote" with
    | some args => eval (args.headD .nil) frame
    | none => do return .ofList (← rebuildRow eval frame (item :: items))
  | .vector (item :: items) _ => do return .ofList (← rebuildRow eval frame (item :: items))
  | form => pure form
termination_by structural form => form

def rebuildRow (eval : Evaluator) (frame : FrameId) : List Value → Run (List Value)
  | [] => pure []
  | item :: items =>
    match item.argumentsOf? "splice-unquote" with
    | some args => do
      let value ← eval (args.headD .nil) frame
      let row ← rebuildRow eval frame items
      return (← Run.sequence "concat" value) ++ row
    | none => do
      let value ← rebuild eval frame item
      let row ← rebuildRow eval frame items
      return value :: row
termination_by structural items => items

end

section Equations

variable (eval : Evaluator) (frame : FrameId)

theorem rebuild_constant {form : Value} (h : form.items?.getD [] = []) : rebuild eval frame form = pure form := by
  cases form with
  | list items | vector items =>
    obtain rfl : items = [] := h
    rfl
  | _ => rfl

theorem rebuild_row {form item : Value} {items : List Value} (hitems : form.items? = some (item :: items))
    (hhead : form.argumentsOf? "unquote" = none) :
    rebuild eval frame form = (do return .ofList (← rebuildRow eval frame (item :: items))) := by
  obtain ⟨info, rfl | rfl⟩ := Value.items?_eq_some.1 hitems
  · rw [rebuild, hhead]
  · rfl

theorem rebuildRow_spliced {item form : Value} (h : item.argumentsOf? "splice-unquote" = some [form])
    (items : List Value) : rebuildRow eval frame (item :: items) = (do
      let value ← eval form frame
      let row ← rebuildRow eval frame items
      return (← Run.sequence "concat" value) ++ row) := by
  rw [rebuildRow, h]
  rfl

theorem rebuildRow_single {item : Value} (h : item.argumentsOf? "splice-unquote" = none) (items : List Value) :
    rebuildRow eval frame (item :: items) = (do
      let value ← rebuild eval frame item
      let row ← rebuildRow eval frame items
      return value :: row) := by
  rw [rebuildRow, h]

end Equations

/-- Rebuilding a regular template fills its holes. -/
theorem rebuild_fills {t : Value} (h : Regular t) :
    (rebuild eval frame t).Fills eval frame (holes t) (fill t) (Reaches t) := by
  refine h.rowInduction (P := fun t => (rebuild eval frame t).Fills eval frame (holes t) (fill t) (Reaches t))
    (Q := fun items => (rebuildRow eval frame items).Fills eval frame (rowHoles items) (fillRow items)
      (RowReaches items))
    ?constant ?hole ?row ?nil ?spliced ?single
  case constant =>
    intro form hform
    rw [rebuild_constant _ _ hform, holes_constant hform, funext (fill_constant hform),
      funext (reaches_constant hform)]
    exact .constant form
  case hole => exact fun form info => .single form
  case row =>
    intro form item items hitems hhead ih
    rw [rebuild_row _ _ hitems hhead, holes_row hitems hhead, funext (fill_row hitems hhead),
      reaches_row hitems hhead]
    exact ih.map Value.ofList
  case nil => exact .constant []
  case spliced =>
    intro item form items hitem _ ih
    rw [rebuildRow_spliced _ _ hitem, rowHoles_spliced hitem, funext (fillRow_spliced hitem items),
      funext (rowReaches_spliced hitem items)]
    exact ih.splice form
  case single =>
    intro item items hitem _ _ ihitem ih
    rw [rebuildRow_single _ _ hitem, rowHoles_single hitem, funext (fillRow_single hitem items),
      funext (rowReaches_single hitem items)]
    exact ihitem.append ih List.cons

end Holes

end SmallLisp
