/-
Parameter lists as forms write them. Forms are taken for a parameter list exactly if they are the forms of
one (`Parameters.ofForms_eq_value_iff`); all others are refused, for one that is no symbol or for the place
of the rest mark (`Parameters.ofForms_refuses`). Main statement: `Parameters.ofForms_decides`, with what is
accepted said by the places of the rest mark.
-/
import SmallLisp.Proofs.Run.Looking

namespace SmallLisp.Parameters

/-! ## Names -/

/-- The names of a parameter list are well formed, and they are its own. -/
theorem ofNames?_names (params : Parameters) : ofNames? params.names = some params := by
  obtain ⟨required, rest, hmark⟩ := params
  have hplain : ∀ name ∈ required, (name != restMark) = true := fun name hname =>
    bne_iff_ne.2 fun h => hmark (h ▸ hname)
  unfold ofNames? names
  simp only [List.takeWhile_append_of_pos hplain, List.dropWhile_append_of_pos hplain]
  cases rest <;> simp

/-- Well formed names are the names of the parameter list that they write. -/
theorem names_of_ofNames? {names : List String} {params : Parameters} (h : ofNames? names = some params) :
    params.names = names := by
  have hsplit := List.takeWhile_append_dropWhile (p := (· != restMark)) (l := names)
  have hmark := List.head?_dropWhile_not (· != restMark) names
  unfold ofNames? at h
  match hrest : names.dropWhile (· != restMark) with
  | [] =>
    simp only [hrest, Option.some.injEq] at h
    subst h
    rwa [hrest] at hsplit
  | [mark, rest] =>
    simp only [hrest, Option.some.injEq] at h
    subst h
    -- what is left of the names begins with the rest mark
    obtain rfl : mark = restMark := by simpa [hrest] using hmark
    rwa [hrest] at hsplit
  | [_] | _ :: _ :: _ :: _ => simp [hrest] at h

/-! ## Forms -/

/-- Forms are all symbols, or there is a first one that is not. -/
theorem symbols_or_other : ∀ forms : List Value, (∃ names : List String, forms = names.map .symbol) ∨
    ∃ (names : List String) (form : Value) (after : List Value),
      forms = names.map .symbol ++ form :: after ∧ ∀ name, form ≠ .symbol name
  | [] => .inl ⟨[], rfl⟩
  | form :: forms => by
    by_cases hform : ∃ name, form = .symbol name
    · obtain ⟨name, rfl⟩ := hform
      rcases symbols_or_other forms with ⟨names, rfl⟩ | ⟨names, other, after, rfl, hother⟩
      · exact .inl ⟨name :: names, rfl⟩
      · exact .inr ⟨name :: names, other, after, rfl, hother⟩
    · exact .inr ⟨[], form, forms, rfl, fun name h => hform ⟨name, h⟩⟩

theorem symbolNames_map : ∀ names : List String, symbolNames (names.map .symbol) = pure names
  | [] => rfl
  | name :: names => by rw [List.map_cons, symbolNames, symbolNames_map names, pure_bind]

theorem symbolNames_other {form : Value} (h : ∀ name, form ≠ .symbol name) (after : List Value) :
    ∀ names : List String, symbolNames (names.map .symbol ++ form :: after) =
      Run.failInspecting form .parameterNotSymbol
  | [] => by
    cases form with
    | symbol name => exact absurd rfl (h name)
    | _ => rfl
  | name :: names => by
    rw [List.map_cons, List.cons_append, symbolNames, symbolNames_other h after names, Run.failInspecting, bind_assoc]
    rfl

/-- Symbols write a parameter list if the rest mark stands before the last of them or nowhere. -/
theorem ofForms_map (names : List String) : ofForms (names.map .symbol) =
    match ofNames? names with
    | some params => pure params
    | none => Run.failKind .malformedRest := by
  rw [ofForms, symbolNames_map]
  rfl

/-- The first form that is no symbol is shown. -/
theorem ofForms_other {form : Value} (h : ∀ name, form ≠ .symbol name) (names : List String) (after : List Value) :
    ofForms (names.map .symbol ++ form :: after) = Run.failInspecting form .parameterNotSymbol := by
  rw [ofForms, symbolNames_other h, Run.failInspecting, bind_assoc]
  rfl

/-- Forms are accepted as a parameter list exactly if they are the forms of that list. -/
theorem ofForms_eq_value_iff {forms : List Value} {params : Parameters} {s t : State} :
    ofForms forms s = .value params t ↔ forms = params.forms ∧ t = s := by
  constructor
  · intro h
    rcases symbols_or_other forms with ⟨names, rfl⟩ | ⟨names, form, after, rfl, hform⟩
    · rw [ofForms_map] at h
      cases hparams : ofNames? names with
      | none =>
        rw [hparams] at h
        cases h
      | some _ =>
        rw [hparams] at h
        cases h
        rw [Parameters.forms, names_of_ofNames? hparams]
        exact ⟨rfl, rfl⟩
    · obtain ⟨fault, hfault⟩ := Run.Refuses.failInspecting (α := Parameters) form .parameterNotSymbol s
      rw [ofForms_other hform, hfault] at h
      cases h
  · rintro ⟨rfl, rfl⟩
    rw [Parameters.forms, ofForms_map, ofNames?_names]
    rfl

/-- Forms that are those of no parameter list are symbols among which the rest mark is misplaced, or there is one
that is no symbol. -/
theorem ofForms_refuses {forms : List Value} (h : ∀ params : Parameters, forms ≠ params.forms) :
    (∃ names : List String, forms = names.map .symbol ∧ ofForms forms = Run.failKind .malformedRest) ∨
    ∃ (names : List String) (form : Value) (after : List Value), forms = names.map .symbol ++ form :: after ∧
      (∀ name, form ≠ .symbol name) ∧ ofForms forms = Run.failInspecting form .parameterNotSymbol := by
  rcases symbols_or_other forms with ⟨names, rfl⟩ | ⟨names, form, after, rfl, hform⟩
  · refine .inl ⟨names, rfl, ?_⟩
    cases hnames : ofNames? names with
    | none => rw [ofForms_map, hnames]
    | some params => exact absurd (by rw [Parameters.forms, names_of_ofNames? hnames]) (h params)
  · exact .inr ⟨names, form, after, rfl, hform, ofForms_other hform names after⟩

/-! ## The place of the rest mark -/

/-- The rest mark is not among the names, or it is there once, directly before the last one. -/
def MarkPlaced (names : List String) : Prop :=
  restMark ∉ names ∨ names.count restMark = 1 ∧ ∃ required last, names = required ++ [restMark, last]

/-- The rest mark is there twice, as the last two of the names. -/
def MarkDoubled (names : List String) : Prop :=
  ∃ required, restMark ∉ required ∧ names = required ++ [restMark, restMark]

theorem MarkDoubled.not_markPlaced {names : List String} (h : MarkDoubled names) : ¬MarkPlaced names := by
  obtain ⟨required, hmark, rfl⟩ := h
  rintro (hnone | ⟨hcount, -⟩)
  · exact hnone (by simp)
  · simp [List.count_append, List.count_eq_zero.2 hmark] at hcount

/-- Only the first of the rest marks is looked at, so the last name may be one, too. -/
theorem exists_names_eq_iff {names : List String} :
    (∃ params : Parameters, params.names = names) ↔ MarkPlaced names ∨ MarkDoubled names := by
  constructor
  · rintro ⟨⟨required, rest, hmark⟩, rfl⟩
    cases rest with
    | none => exact .inl (.inl (by simpa [names] using hmark))
    | some last =>
      by_cases hlast : last = restMark
      · exact .inr ⟨required, hmark, by rw [hlast]; rfl⟩
      · refine .inl (.inr ⟨?_, required, last, rfl⟩)
        simp [names, List.count_append, List.count_eq_zero.2 hmark, hlast]
  · rintro ((hnone | ⟨hcount, required, last, rfl⟩) | ⟨required, hmark, rfl⟩)
    · exact ⟨⟨names, none, hnone⟩, List.append_nil _⟩
    · have hmark : restMark ∉ required := by
        rw [List.count_append, List.count_cons_self] at hcount
        exact List.count_eq_zero.1 (by omega)
      exact ⟨⟨required, some last, hmark⟩, rfl⟩
    · exact ⟨⟨required, some restMark, hmark⟩, rfl⟩

/-- Forms are accepted as a parameter list, and kept as they are, if they are symbols among which the rest mark is not
found or stands once, directly before the last, and besides if they end in two rest marks and have none before these.
All others are refused, for the place of the rest mark if they are symbols and otherwise for the first that is none,
or because this one has no text. -/
theorem ofForms_decides (forms : List Value) (s : State) :
    ((∃ params t, ofForms forms s = .value params t) ↔
      ∃ names : List String, forms = names.map .symbol ∧ (MarkPlaced names ∨ MarkDoubled names)) ∧
    (∀ params t, ofForms forms s = .value params t → params.forms = forms ∧ t = s) ∧
    ((¬∃ params t, ofForms forms s = .value params t) →
      (∃ names : List String, forms = names.map .symbol ∧ ofForms forms s = .fault (.kind .malformedRest) s) ∨
      ∃ (names : List String) (form : Value) (after : List Value), forms = names.map .symbol ++ form :: after ∧
        (∀ name, form ≠ .symbol name) ∧ ofForms forms s = match form.inspect s.cells with
          | .ok text => .fault (.kind (.parameterNotSymbol text)) s
          | .error fault => .fault fault s) := by
  have haccepted : (∃ params t, ofForms forms s = .value params t) ↔ ∃ params : Parameters, forms = params.forms := by
    simp only [ofForms_eq_value_iff, exists_and_left, exists_eq, and_true]
  refine ⟨?_, fun params t h => ?_, fun h => ?_⟩
  · rw [haccepted]
    constructor
    · rintro ⟨params, rfl⟩
      exact ⟨params.names, rfl, exists_names_eq_iff.1 ⟨params, rfl⟩⟩
    · rintro ⟨names, rfl, hnames⟩
      obtain ⟨params, rfl⟩ := exists_names_eq_iff.2 hnames
      exact ⟨params, rfl⟩
  · obtain ⟨hforms, hstate⟩ := ofForms_eq_value_iff.1 h
    exact ⟨hforms.symm, hstate⟩
  · rw [haccepted, not_exists] at h
    rcases ofForms_refuses h with ⟨names, hnames, hrun⟩ | ⟨names, form, after, hforms, hform, hrun⟩
    · exact .inl ⟨names, hnames, by rw [hrun]; rfl⟩
    · refine .inr ⟨names, form, after, hforms, hform, ?_⟩
      cases hshown : form.inspect s.cells with
      | ok text => exact hrun ▸ Run.failInspecting_of_text hshown _
      | error fault => exact hrun ▸ Run.failInspecting_of_error hshown _

/-- Two rest marks at the end are accepted. -/
theorem ofForms_doubledMark :
    let names := ["a", restMark, restMark]
    let s : State := ⟨#[], #[], "", "", [], true, .tree [], 0, 0⟩
    ofForms (names.map .symbol) s = .value ⟨["a"], some restMark, by decide⟩ s ∧ ¬MarkPlaced names :=
  ⟨rfl, MarkDoubled.not_markPlaced ⟨["a"], by decide, rfl⟩⟩

end SmallLisp.Parameters
