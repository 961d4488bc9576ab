/-
What is read is literal: the reader puts keys into maps without a check, but it makes neither
functions nor cells, so every map that it makes is sound. Main statements: `read_literal`,
`readAll_literal`.
-/
import SmallLisp.Proofs.Value.Soundness
import SmallLisp.Source.Form

namespace SmallLisp

/-- The values that single tokens denote: constants, numbers, texts and names. -/
def Value.IsAtomic : Value → Prop
  | .nil | .bool _ | .int _ | .float _ | .str _ | .symbol _ | .keyword _ => True
  | _ => False

namespace Source

open Value (Literal)

/-! ## Atoms and compounds -/

/-- A constant, a number, a text or a name has no parts, so it is literal. -/
theorem literal_of_scalar {v : Value} (hparts : v.parts = []) (hfunction : v.isFunction = false)
    (hcell : v.isImmutable = true) : v.Literal :=
  ⟨Value.sound_of_parts_nil hparts, ⟨hfunction, hcell⟩⟩

theorem atomic_of_atomValue {chars : List Char} {v : Value} (h : atomValue chars = .ok v) : v.IsAtomic := by
  unfold atomValue at h
  split at h
  · cases h; trivial
  split at h
  · cases h; trivial
  split at h
  · cases h; trivial
  split at h
  · -- an integer numeral may be too long
    unfold integerValue at h
    split at h
    · cases h; trivial
    · cases h
  split at h
  · cases h; trivial
  split at h
  · split at h
    · cases h; trivial
    · cases h
  · cases h; trivial
  · cases h; trivial

theorem atomValue_literal {chars : List Char} {v : Value} (h : atomValue chars = .ok v) : v.Literal := by
  have hatomic := atomic_of_atomValue h
  cases v with
  | list | vector | map | cell | closure | primitive => exact hatomic.elim
  | _ => exact literal_of_scalar rfl rfl rfl

theorem literal_symbol (name : String) : (Value.symbol name).Literal := literal_of_scalar rfl rfl rfl

theorem compound_literal {b : Bracket} {items : List Value} {v : Value} (hitems : ∀ item ∈ items, item.Literal)
    (h : compound b items = .ok v) : v.Literal := by
  cases b with
  | round => cases h; exact Value.literal_ofList hitems
  | square => cases h; exact Value.literal_ofVector hitems
  | curly =>
    unfold compound at h
    dsimp only at h
    split at h
    · cases h
      exact Value.literal_ofEntries_pairs hitems
    · cases h

/-! ## Properties of all that is read -/

/-- A property that atoms, marks and compounds of values with the property have. -/
structure HoldsOfForms (P : Value → Prop) : Prop where
  atom : ∀ {chars : List Char} {v : Value}, atomValue chars = .ok v → P v
  symbol : ∀ name : String, P (.symbol name)
  compound : ∀ {b : Bracket} {items : List Value} {v : Value}, (∀ item ∈ items, P item) → compound b items = .ok v → P v

section Forms

variable {P : Value → Prop} (hP : HoldsOfForms P)

/-- Whether what a construct has read so far has the property. -/
def Context.Each (P : Value → Prop) : Context → Prop
  | .items _ read => ∀ form ∈ read, P form
  | .target info => P info
  | .operand _ | .metadata => True

/-- Whether reading has come to a form with the property, or goes on with such forms only. -/
def Progress.Each (P : Value → Prop) : Progress → Prop
  | .complete form => P form
  | .inside stack => ∀ context ∈ stack, context.Each P
  | .failed _ | .refused _ => True

include hP

theorem HoldsOfForms.list {items : List Value} (h : ∀ item ∈ items, P item) : P (.ofList items) :=
  hP.compound (b := .round) h rfl

theorem deliver_each : ∀ {stack : List Context} {form : Value}, (∀ context ∈ stack, context.Each P) → P form →
    (deliver stack form).Each P
  | [], _, _, hform => hform
  | context :: stack, form, hstack, hform => by
    obtain ⟨hcontext, hrest⟩ := List.forall_mem_cons.1 hstack
    cases context with
    | items b read => exact List.forall_mem_cons.2 ⟨List.forall_mem_cons.2 ⟨hform, hcontext⟩, hrest⟩
    | operand m =>
      rw [deliver]
      refine deliver_each hrest (hP.list ?_)
      simpa using ⟨hP.symbol m.head, hform⟩
    | metadata => exact List.forall_mem_cons.2 ⟨hform, hrest⟩
    | target info =>
      have hinfo : P info := hcontext
      rw [deliver]
      refine deliver_each hrest (hP.list ?_)
      simpa using ⟨hP.symbol "with-meta", hform, hinfo⟩

theorem accept_each {stack : List Context} (hstack : ∀ context ∈ stack, context.Each P) (token : Token) :
    (accept stack token).Each P := by
  have hatom : ∀ chars, (accept.atom stack chars).Each P := by
    intro chars
    unfold accept.atom
    split
    · next h => exact deliver_each hP hstack (hP.atom h)
    · trivial
  cases token with
  | opening b => exact List.forall_mem_cons.2 ⟨fun _ h => absurd h List.not_mem_nil, hstack⟩
  | mark m => exact List.forall_mem_cons.2 ⟨trivial, hstack⟩
  | caret => exact List.forall_mem_cons.2 ⟨trivial, hstack⟩
  | text chars | word chars => exact hatom chars
  | closing b =>
    unfold accept
    dsimp only
    split
    · next read stack =>
      obtain ⟨hread, hrest⟩ := List.forall_mem_cons.1 hstack
      split
      · split
        · next form h =>
          exact deliver_each hP hrest (hP.compound (fun item hi => hread item (List.mem_reverse.1 hi)) h)
        · trivial
      · trivial
    · trivial

theorem readFrom_each : ∀ {tokens : List Token} {stack : List Context} {form : Value},
    (∀ context ∈ stack, context.Each P) → (readFrom stack tokens).1 = .ok (some form) → P form
  | [], [], _, _, h => by cases h
  | [], _ :: _, _, _, h => by cases h
  | token :: tokens, stack, form, hstack, h => by
    have htoken := accept_each hP hstack token
    rw [readFrom] at h
    split at h
    · next heq =>
      rw [heq] at htoken
      cases h
      exact htoken
    · next heq =>
      rw [heq] at htoken
      exact readFrom_each htoken h
    · cases h
    · cases h

theorem readAllFrom_each : ∀ {tokens : List Token} {stack : List Context} {forms : List Value},
    (∀ context ∈ stack, context.Each P) → (∀ form ∈ forms, P form) →
    ∀ form ∈ (readAllFrom stack forms tokens).forms, P form
  | [], [], forms, _, hforms | [], _ :: _, forms, _, hforms => fun form h => hforms form (List.mem_reverse.1 h)
  | token :: tokens, stack, forms, hstack, hforms => by
    have htoken := accept_each hP hstack token
    rw [readAllFrom]
    split
    · next heq =>
      rw [heq] at htoken
      exact readAllFrom_each (fun _ h => absurd h List.not_mem_nil) (List.forall_mem_cons.2 ⟨htoken, hforms⟩)
    · next heq =>
      rw [heq] at htoken
      exact readAllFrom_each htoken hforms
    · exact fun form h => hforms form (List.mem_reverse.1 h)
    · exact fun form h => hforms form (List.mem_reverse.1 h)

/-- The first form of a text has the property. -/
theorem HoldsOfForms.read {text : String} {form : Value} (h : Source.read text = .ok (some form)) : P form :=
  readFrom_each hP (fun _ h => absurd h List.not_mem_nil) h

/-- So have all forms of a text up to its end or its first fault. -/
theorem HoldsOfForms.readAll (text : String) : ∀ form ∈ (Source.readAll text).forms, P form :=
  readAllFrom_each hP (fun _ h => absurd h List.not_mem_nil) fun _ h => absurd h List.not_mem_nil

end Forms

/-! ## Texts -/

theorem literal_holdsOfForms : HoldsOfForms Value.Literal := ⟨atomValue_literal, literal_symbol, compound_literal⟩

/-- The first form of a text is literal. -/
theorem read_literal {text : String} {form : Value} (h : read text = .ok (some form)) : form.Literal :=
  literal_holdsOfForms.read h

/-- All forms of a text up to its end or its first fault are literal. -/
theorem readAll_literal (text : String) : ∀ form ∈ (readAll text).forms, form.Literal :=
  literal_holdsOfForms.readAll text

end Source

end SmallLisp
