/-
Malformed templates. A row is rebuilt from its front, and what is left of it is looked at as a list of its own.
There is no code for a template exactly if somewhere on that way a hole has not one form in it
(`code_fails_iff`).
-/
import SmallLisp.Proofs.Template.Holes

namespace SmallLisp

theorem Value.argumentsOf?_eq_some {v : Value} {head : String} {args : List Value} :
    v.argumentsOf? head = some args ↔ ∃ info, v = .list (.symbol head :: args) info := by
  unfold argumentsOf?
  split
  · next name args' info =>
    by_cases hname : name = head <;> simp [hname]
  · next hother =>
    simp only [reduceCtorEq, false_iff, not_exists]
    rintro info rfl
    exact hother head args info rfl

namespace Template

/-- The templates in which a hole with no form, or with several, is met: the template itself, the first item of a
row if that is to be spliced, or what is found in the same way in the first item or in the rest of the row. -/
inductive Malformed : Value → Prop where
  | hole {t : Value} {args : List Value} : t.argumentsOf? "unquote" = some args → args.length ≠ 1 → Malformed t
  | spliced {t item : Value} {items args : List Value} : t.items? = some (item :: items) →
    t.argumentsOf? "unquote" = none → item.argumentsOf? "splice-unquote" = some args → args.length ≠ 1 → Malformed t
  | first {t item : Value} {items : List Value} : t.items? = some (item :: items) →
    t.argumentsOf? "unquote" = none → item.argumentsOf? "splice-unquote" = none → Malformed item → Malformed t
  | rest {t item : Value} {items : List Value} : t.items? = some (item :: items) →
    t.argumentsOf? "unquote" = none → Malformed (.ofList items) → Malformed t

section Inversion

variable {t item : Value} {items args : List Value}

theorem malformed_hole (h : t.argumentsOf? "unquote" = some args) : Malformed t ↔ args.length ≠ 1 := by
  refine ⟨fun hmalformed => ?_, .hole h⟩
  cases hmalformed with
  | hole hargs hlength =>
    cases h.symm.trans hargs
    exact hlength
  | spliced _ hnone | first _ hnone | rest _ hnone => cases h.symm.trans hnone

theorem not_malformed_constant (h : t.items?.getD [] = []) : ¬Malformed t := by
  intro hmalformed
  cases hmalformed with
  | hole hargs _ =>
    obtain ⟨info, rfl⟩ := Value.argumentsOf?_eq_some.1 hargs
    cases h
  | spliced hitems | first hitems | rest hitems =>
    rw [hitems] at h
    cases h

section Row

variable (hitems : t.items? = some (item :: items)) (hhead : t.argumentsOf? "unquote" = none)
include hitems hhead

theorem malformed_spliced (hsplice : item.argumentsOf? "splice-unquote" = some args) :
    Malformed t ↔ args.length ≠ 1 ∨ Malformed (.ofList items) := by
  refine ⟨fun hmalformed => ?_, fun h => h.elim (.spliced hitems hhead hsplice) (.rest hitems hhead)⟩
  cases hmalformed with
  | hole hargs => cases hhead.symm.trans hargs
  | spliced hrow _ hargs hlength =>
    cases hitems.symm.trans hrow
    cases hsplice.symm.trans hargs
    exact .inl hlength
  | first hrow _ hnone =>
    cases hitems.symm.trans hrow
    cases hsplice.symm.trans hnone
  | rest hrow _ hrest =>
    cases hitems.symm.trans hrow
    exact .inr hrest

theorem malformed_single (hsplice : item.argumentsOf? "splice-unquote" = none) :
    Malformed t ↔ Malformed item ∨ Malformed (.ofList items) := by
  refine ⟨fun hmalformed => ?_, fun h => h.elim (.first hitems hhead hsplice) (.rest hitems hhead)⟩
  cases hmalformed with
  | hole hargs => cases hhead.symm.trans hargs
  | spliced hrow _ hargs =>
    cases hitems.symm.trans hrow
    cases hsplice.symm.trans hargs
  | first hrow _ _ hfirst =>
    cases hitems.symm.trans hrow
    exact .inl hfirst
  | rest hrow _ hrest =>
    cases hitems.symm.trans hrow
    exact .inr hrest

end Row

end Inversion

/-! ## Templates without code -/

theorem hole_fails_iff {name : String} {forms : List Value} :
    (∃ cause, Template.hole name forms = .error cause) ↔ forms.length ≠ 1 := by
  match forms with
  | [] | [_] | _ :: _ :: _ => simp [Template.hole]

/-- Code in two parts is missing if one of them is. -/
theorem code_pair_fails_iff {x y : Except ArityFault Value} {f : Value → Value → Value} :
    (∃ cause, (do let a ← x; let b ← y; .ok (f a b) : Except ArityFault Value) = .error cause) ↔
      (∃ cause, x = .error cause) ∨ ∃ cause, y = .error cause := by
  cases x <;> cases y <;> simp [bind, Except.bind]

theorem code_hole {t : Value} {args : List Value} (h : t.argumentsOf? "unquote" = some args) :
    code t = Template.hole "unquote" args := by
  obtain ⟨info, rfl⟩ := Value.argumentsOf?_eq_some.1 h
  rfl

theorem constant_fails_iff {t : Value} (h : t.items?.getD [] = []) :
    (∃ cause, code t = .error cause) ↔ Malformed t := by
  simp [code_constant h, not_malformed_constant h]

theorem row_fails_iff {t item : Value} {items : List Value} (hitems : t.items? = some (item :: items))
    (hitem : (∃ cause, code item = .error cause) ↔ Malformed item)
    (hrest : (∃ cause, itemsCode true items = .error cause) ↔ Malformed (.ofList items)) :
    (∃ cause, code t = .error cause) ↔ Malformed t := by
  cases hhead : t.argumentsOf? "unquote" with
  | some args => rw [code_hole hhead, hole_fails_iff, malformed_hole hhead]
  | none =>
    rw [code_row hitems hhead, itemsCode_cons (.inl rfl)]
    cases hsplice : item.argumentsOf? "splice-unquote" with
    | some args =>
      rw [malformed_spliced hitems hhead hsplice, ← hrest, ← hole_fails_iff]
      exact code_pair_fails_iff
    | none =>
      rw [malformed_single hitems hhead hsplice, ← hitem, ← hrest]
      exact code_pair_fails_iff

mutual

/-- There is no code for a template exactly if it is malformed. -/
theorem code_fails_iff : ∀ t : Value, (∃ cause, code t = .error cause) ↔ Malformed t
  | .list (item :: items) _ | .vector (item :: items) _ =>
    row_fails_iff rfl (code_fails_iff item) (itemsCode_fails_iff items)
  | .list [] _ | .vector [] _ | .nil | .bool _ | .int _ | .float _ | .str _ | .symbol _ | .keyword _ | .map .. | .cell _
  | .closure .. | .primitive .. => constant_fails_iff rfl

theorem itemsCode_fails_iff (items : List Value) :
    (∃ cause, itemsCode true items = .error cause) ↔ Malformed (.ofList items) := by
  cases items with
  | nil => exact constant_fails_iff (t := .ofList []) rfl
  | cons item items =>
    exact row_fails_iff (t := .ofList (item :: items)) rfl (code_fails_iff item) (itemsCode_fails_iff items)

end

end Template

end SmallLisp
