/-
Judgements of runs. A judgement says of two runs what they come to, of two values whether they agree, and in which
frames there may be evaluations; it comes with a law for each way in which evaluation makes runs and values. Invariants
are judgements, and so are likeness and the order of runs.
-/
import Mathlib.Data.List.Forall2
import SmallLisp.Parameters
import SmallLisp.Proofs.Run.Soundness
import SmallLisp.Proofs.Template.Holes
import SmallLisp.SpecialForm

namespace SmallLisp

/-! ## Values -/

/-- Values of one kind, with parts that agree one by one. Functions belong to a frame that may be referred to. -/
inductive Value.Corresponds (agree : Value → Value → Prop) (refers : FrameId → Prop) : Value → Value → Prop where
  | nil : Corresponds agree refers .nil .nil
  | bool (b : Bool) : Corresponds agree refers (.bool b) (.bool b)
  | int (i : Int) : Corresponds agree refers (.int i) (.int i)
  | float (x : Binary64) : Corresponds agree refers (.float x) (.float x)
  | str (text : String) : Corresponds agree refers (.str text) (.str text)
  | symbol (name : String) : Corresponds agree refers (.symbol name) (.symbol name)
  | keyword (name : String) : Corresponds agree refers (.keyword name) (.keyword name)
  | cell (id : CellId) : Corresponds agree refers (.cell id) (.cell id)
  | list {items items' : List Value} {info info' : Value} : List.Forall₂ agree items items' →
    Corresponds agree refers (.list items info) (.list items' info')
  | vector {items items' : List Value} {info info' : Value} : List.Forall₂ agree items items' →
    Corresponds agree refers (.vector items info) (.vector items' info')
  | map {entries entries' : Entries} {info info' : Value} :
    List.Forall₂ (fun a b => agree a.1 b.1 ∧ agree a.2 b.2) entries entries' →
    Corresponds agree refers (.map entries info) (.map entries' info')
  | closure (params : Parameters) {body body' : List Value} {frame : FrameId} (isMacro : Bool) {info info' : Value} :
    List.Forall₂ agree body body' → refers frame →
    Corresponds agree refers (.closure params body frame isMacro info) (.closure params body' frame isMacro info')
  | primitive (p : Primitive) (isMacro : Bool) {info info' : Value} :
    Corresponds agree refers (.primitive p isMacro info) (.primitive p isMacro info')

/-- A relation of values that evaluation can keep up. It may depend on the number of frames, and goes on to hold when
frames are added. -/
structure Agreement where
  agree : Nat → Value → Value → Prop
  /-- The frames that functions may belong to. -/
  refers : Nat → FrameId → Prop
  /-- The relation of values that have been accepted as keys. -/
  key : Nat → Value → Value → Prop
  mono {m n : Nat} {v w : Value} : m ≤ n → agree m v w → agree n v w
  refers_mono {m n : Nat} {frame : FrameId} : m ≤ n → refers m frame → refers n frame
  key_mono {m n : Nat} {v w : Value} : m ≤ n → key m v w → key n v w
  corresponds {n : Nat} {v w : Value} : agree n v w → v.Corresponds (agree n) (refers n) w
  nil {n : Nat} : agree n .nil .nil
  symbol {n : Nat} (name : String) : agree n (.symbol name) (.symbol name)
  list {n : Nat} {vs ws : List Value} : List.Forall₂ (agree n) vs ws → agree n (.ofList vs) (.ofList ws)
  vector {n : Nat} {vs ws : List Value} : List.Forall₂ (agree n) vs ws → agree n (.ofVector vs) (.ofVector ws)
  map {n : Nat} {as bs : Entries} : List.Forall₂ (fun a b => key n a.1 b.1 ∧ agree n a.2 b.2) as bs →
    agree n (.ofEntries (Entries.ofList as)) (.ofEntries (Entries.ofList bs))
  closure {n : Nat} (params : Parameters) {body body' : List Value} {frame : FrameId} :
    List.Forall₂ (agree n) body body' → refers n frame →
    agree n (.closure params body frame false .nil) (.closure params body' frame false .nil)
  asMacro? {n : Nat} {v w : Value} : agree n v w → Option.Rel (agree n) v.asMacro? w.asMacro?

namespace Agreement

variable (A : Agreement) {m n : Nat}

/-- Rows of values that agree one by one. -/
abbrev Each (n : Nat) : List Value → List Value → Prop := List.Forall₂ (A.agree n)

theorem Each.mono {A : Agreement} (hmn : m ≤ n) {vs ws : List Value} (h : A.Each m vs ws) : A.Each n vs ws :=
  h.imp fun _ _ => A.mono hmn

section Kinds

variable {A : Agreement} {v w : Value} (h : A.agree n v w)
include h

theorem isTruthy_eq : v.isTruthy = w.isTruthy := by cases A.corresponds h <;> rfl

theorem isMacro_eq : v.isMacro = w.isMacro := by cases A.corresponds h <;> rfl

theorem ofHead?_eq : SpecialForm.ofHead? v = SpecialForm.ofHead? w := by cases A.corresponds h <;> rfl

theorem argumentsOf? (head : String) : Option.Rel (A.Each n) (v.argumentsOf? head) (w.argumentsOf? head) := by
  cases A.corresponds h with
  | list hitems =>
    cases hitems with
    | nil => exact .none
    | cons hfirst hrest =>
      cases A.corresponds hfirst with
      | symbol name =>
        simp only [Value.argumentsOf?]
        split
        · exact .some hrest
        · exact .none
      | _ => exact .none
  | _ => exact .none

end Kinds

end Agreement

/-! ### Templates -/

/-- Computations that fail alike or come to related results. -/
inductive Template.Agree {α β : Type} (Q : α → β → Prop) : Except ArityFault α → Except ArityFault β → Prop where
  | ok {a : α} {b : β} : Q a b → Agree Q (.ok a) (.ok b)
  | error (cause : ArityFault) : Agree Q (.error cause) (.error cause)

theorem Template.Agree.bind {α α' β β' : Type} {P : α → β → Prop} {Q : α' → β' → Prop} {x : Except ArityFault α}
    {y : Except ArityFault β} {f : α → Except ArityFault α'} {g : β → Except ArityFault β'} (h : Agree P x y)
    (hf : ∀ a b, P a b → Agree Q (f a) (g b)) : Agree Q (x >>= f) (y >>= g) := by
  cases h with
  | ok hab => exact hf _ _ hab
  | error cause => exact .error cause

namespace Agreement

open Template (itemsCode_cons)

variable {A : Agreement} {n : Nat}

theorem quoting {v w : Value} (h : A.agree n v w) : A.agree n (Template.quoting v) (Template.quoting w) :=
  A.list (.cons (A.symbol "quote") (.cons h .nil))

theorem hole (name : String) {vs ws : List Value} (h : A.Each n vs ws) :
    Template.Agree (A.agree n) (Template.hole name vs) (Template.hole name ws) := by
  cases h with
  | nil => exact .error _
  | cons hfirst hrest =>
    cases hrest with
    | nil => exact .ok hfirst
    | cons => exact .error _

/-- Calls with two arguments, as the code of templates makes them. -/
theorem call (name : String) {a b c d : Value} (hab : A.agree n a b) (hcd : A.agree n c d) :
    A.agree n (.ofList [.symbol name, a, c]) (.ofList [.symbol name, b, d]) :=
  A.list (.cons (A.symbol name) (.cons hab (.cons hcd .nil)))

theorem symbol_iff {v w : Value} (h : A.agree n v w) (name : String) : v = .symbol name ↔ w = .symbol name := by
  cases A.corresponds h <;> simp

mutual

/-- The code of templates that agree agrees. -/
theorem code : ∀ {v w : Value}, A.agree n v w → Template.Agree (A.agree n) (Template.code v) (Template.code w)
  | .list [] _, _, h => by
    cases A.corresponds h with
    | list hitems =>
      cases hitems
      exact .ok (quoting h)
  | .vector [] _, _, h => by
    cases A.corresponds h with
    | vector hitems =>
      cases hitems
      exact .ok (quoting h)
  | .list (_ :: _) _, _, h => by
    cases A.corresponds h with
    | list hitems =>
      cases hitems with
      | cons hitem hitems => exact itemsCode true (.cons hitem hitems)
  | .vector (_ :: _) _, _, h => by
    cases A.corresponds h with
    | vector hitems =>
      cases hitems with
      | cons hitem hitems => exact itemsCode false (.cons hitem hitems)
  | .nil, _, h | .bool _, _, h | .int _, _, h | .float _, _, h | .str _, _, h | .symbol _, _, h | .keyword _, _, h
  | .cell _, _, h | .map .., _, h | .closure .., _, h | .primitive .., _, h => by
    cases A.corresponds h
    exact .ok (quoting h)

theorem itemsCode (isList : Bool) : ∀ {vs ws : List Value}, A.Each n vs ws →
    Template.Agree (A.agree n) (Template.itemsCode isList vs) (Template.itemsCode isList ws)
  | [], _, .nil => .ok (quoting (A.list .nil))
  | item :: items, item' :: items', .cons h hs => by
    by_cases hunquote : isList = false ∨ item ≠ .symbol "unquote"
    · have hunquote' : isList = false ∨ item' ≠ .symbol "unquote" :=
        hunquote.imp_right fun hne he => hne ((symbol_iff h _).2 he)
      rw [itemsCode_cons hunquote, itemsCode_cons hunquote']
      have hargs := argumentsOf? h "splice-unquote"
      generalize item.argumentsOf? "splice-unquote" = args at hargs
      generalize item'.argumentsOf? "splice-unquote" = args' at hargs
      cases hargs with
      | some hargs =>
        exact (hole _ hargs).bind fun _ _ hspliced => (itemsCode true hs).bind fun _ _ hrest =>
          .ok (call "concat" hspliced hrest)
      | none =>
        exact (code h).bind fun _ _ hfirst => (itemsCode true hs).bind fun _ _ hrest => .ok (call "cons" hfirst hrest)
    · -- the rest of a list after `unquote` is a hole
      obtain ⟨rfl, rfl⟩ : isList = true ∧ item = .symbol "unquote" := by simpa using hunquote
      obtain rfl := (symbol_iff h _).1 rfl
      exact hole "unquote" hs

end

end Agreement

/-! ### Properties of values -/

/-- Whether a property of values, with another one of keys, passes on to the parts of values and to what evaluation
makes of them. -/
structure Value.Hereditary (P K : Value → Prop) : Prop where
  parts {v part : Value} : P v → part ∈ v.parts → P part
  nil : P .nil
  symbol (name : String) : P (.symbol name)
  list {vs : List Value} : (∀ v ∈ vs, P v) → P (.ofList vs)
  vector {vs : List Value} : (∀ v ∈ vs, P v) → P (.ofVector vs)
  map {entries : Entries} : (∀ entry ∈ entries, (K entry.1 ∧ P entry.1) ∧ P entry.2) →
    P (.ofEntries (Entries.ofList entries))
  closure (params : Parameters) {body : List Value} (frame : FrameId) : (∀ form ∈ body, P form) →
    P (.closure params body frame false .nil)
  asMacro {v w : Value} : P v → v.asMacro? = some w → P w

theorem List.forall₂_and_eq_iff {α : Type} {P : α → Prop} {as bs : List α} :
    List.Forall₂ (fun a b => P a ∧ a = b) as bs ↔ (∀ a ∈ as, P a) ∧ as = bs := by
  rw [List.forall₂_and_left, List.forall₂_eq_eq_eq]

/-- Values agree if they are the same and have a hereditary property. -/
def Agreement.ofProperty {P K : Value → Prop} (h : Value.Hereditary P K) : Agreement where
  agree _ v w := P v ∧ v = w
  refers _ _ := True
  key _ v w := (K v ∧ P v) ∧ v = w
  mono _ h := h
  refers_mono _ h := h
  key_mono _ h := h
  corresponds := by
    rintro _ v _ ⟨hv, rfl⟩
    have hrow : ∀ {vs : List Value}, (∀ part ∈ vs, part ∈ v.parts) → List.Forall₂ (fun a b => P a ∧ a = b) vs vs :=
      fun hparts => List.forall₂_and_eq_iff.2 ⟨fun part hpart => h.parts hv (hparts part hpart), rfl⟩
    cases v with
    | nil => exact .nil
    | bool b => exact .bool b
    | int i => exact .int i
    | float x => exact .float x
    | str text => exact .str text
    | symbol name => exact .symbol name
    | keyword name => exact .keyword name
    | cell id => exact .cell id
    | list => exact .list (hrow fun _ => List.mem_cons_of_mem _)
    | vector => exact .vector (hrow fun _ => List.mem_cons_of_mem _)
    | closure params _ _ isMacro => exact .closure params isMacro (hrow fun _ => List.mem_cons_of_mem _) trivial
    | primitive p isMacro => exact .primitive p isMacro
    | map entries =>
      refine .map (List.forall₂_same.2 fun entry he => ⟨⟨h.parts hv ?_, rfl⟩, h.parts hv ?_, rfl⟩)
      · exact List.mem_cons_of_mem _ (List.mem_append_left _ (List.mem_map_of_mem he))
      · exact List.mem_cons_of_mem _ (List.mem_append_right _ (List.mem_map_of_mem he))
  nil := ⟨h.nil, rfl⟩
  symbol name := ⟨h.symbol name, rfl⟩
  list hrow := by
    obtain ⟨hvs, rfl⟩ := List.forall₂_and_eq_iff.1 hrow
    exact ⟨h.list hvs, rfl⟩
  vector hrow := by
    obtain ⟨hvs, rfl⟩ := List.forall₂_and_eq_iff.1 hrow
    exact ⟨h.vector hvs, rfl⟩
  map hentries := by
    obtain ⟨heach, rfl⟩ := List.forall₂_and_eq_iff.1 (hentries.imp fun a b hab =>
      (⟨⟨hab.1.1, hab.2.1⟩, Prod.ext hab.1.2 hab.2.2⟩ : ((K a.1 ∧ P a.1) ∧ P a.2) ∧ a = b))
    exact ⟨h.map heach, rfl⟩
  closure := by
    intro _ params _ _ frame hbody _
    obtain ⟨hforms, rfl⟩ := List.forall₂_and_eq_iff.1 hbody
    exact ⟨h.closure params frame hforms, rfl⟩
  asMacro? := by
    rintro _ v _ ⟨hv, rfl⟩
    cases hmacro : v.asMacro? with
    | none => exact .none
    | some w => exact .some ⟨h.asMacro hv hmacro, rfl⟩

/-- Values agree if they are the same. -/
def Agreement.same : Agreement := .ofProperty (P := fun _ => True) (K := fun _ => True)
  { parts := fun _ _ => trivial, nil := trivial, symbol := fun _ => trivial, list := fun _ => trivial,
    vector := fun _ => trivial, map := fun _ => trivial, closure := fun _ _ _ _ => trivial,
    asMacro := fun _ _ => trivial }

theorem Agreement.same_self (n : Nat) (v : Value) : Agreement.same.agree n v v := ⟨trivial, rfl⟩

theorem Agreement.same_each (n : Nat) (vs : List Value) : Agreement.same.Each n vs vs :=
  List.forall₂_same.2 fun v _ => same_self n v

theorem Agreement.same_each_iff {n : Nat} {vs ws : List Value} : Agreement.same.Each n vs ws ↔ vs = ws :=
  List.forall₂_and_eq_iff.trans (and_iff_right fun _ _ => trivial)

/-! ## Checks -/

/-- Checks that are passed alike, with related results, or fail with the same fault, of a number or of a kind. -/
inductive Run.Checks {α β : Type} (Q : α → β → Prop) : Run α → Run β → Prop where
  | passed {a : α} {b : β} : Q a b → Checks Q (Pure.pure a) (Pure.pure b)
  | kind (cause : KindFault) : Checks Q (Run.failKind cause) (Run.failKind cause)
  | arity (cause : ArityFault) : Checks Q (Run.fail (.arity cause)) (Run.fail (.arity cause))

namespace Run.Checks

variable {α α' β β' : Type}

theorem bind {x : Run α} {y : Run β} {f : α → Run α'} {g : β → Run β'} {P : α → β → Prop} {Q : α' → β' → Prop}
    (h : Checks P x y) (hf : ∀ a b, P a b → Checks Q (f a) (g b)) : Checks Q (x >>= f) (y >>= g) := by
  cases h with
  | passed hab => exact hf _ _ hab
  | kind cause => exact .kind cause
  | arity cause => exact .arity cause

theorem count (name : String) (count lower : Int) (upper : Option Int) :
    Checks Eq (Run.ofExcept (checkCount name count lower upper))
      (Run.ofExcept (checkCount name count lower upper)) := by
  have hfails : FailsOnly (fun f => ∃ cause, f = .arity cause) (checkCount name count lower upper) :=
    checkCount_fails fun cause => ⟨cause, rfl⟩
  cases hcount : checkCount name count lower upper with
  | ok => exact .passed rfl
  | error f =>
    obtain ⟨cause, rfl⟩ := hfails f hcount
    exact .arity cause

section Arguments

variable {R : Value → Value → Prop} {vs ws : List Value} (name : String) (h : List.Forall₂ R vs ws)
include h

theorem exactlyOne : Checks R (Run.exactlyOne name vs) (Run.exactlyOne name ws) := by
  cases h with
  | nil => exact .arity _
  | cons hv hrest =>
    cases hrest with
    | nil => exact .passed hv
    | cons => exact .arity _

theorem exactlyTwo :
    Checks (fun a b => R a.1 b.1 ∧ R a.2 b.2) (Run.exactlyTwo name vs) (Run.exactlyTwo name ws) := by
  cases h with
  | nil => exact .arity _
  | cons hv hrest =>
    cases hrest with
    | nil => exact .arity _
    | cons hw hrest =>
      cases hrest with
      | nil => exact .passed ⟨hv, hw⟩
      | cons => exact .arity _

theorem oneOrMore :
    Checks (fun a b => R a.1 b.1 ∧ List.Forall₂ R a.2 b.2) (Run.oneOrMore name vs) (Run.oneOrMore name ws) := by
  cases h with
  | nil => exact .arity _
  | cons hv hrest => exact .passed ⟨hv, hrest⟩

end Arguments

section Forms

variable {A : Agreement} {n : Nat} {v w : Value} (h : A.agree n v w)
include h

theorem requireSymbol (name : String) (index : Nat) :
    Checks Eq (Run.requireSymbol name index v) (Run.requireSymbol name index w) := by
  cases A.corresponds h with
  | symbol name => exact .passed rfl
  | _ => exact .kind _

theorem requireItems (name : String) (index : Nat) :
    Checks (A.Each n) (Run.requireItems name index v) (Run.requireItems name index w) := by
  cases A.corresponds h with
  | list hitems | vector hitems => exact .passed hitems
  | _ => exact .kind _

end Forms

end Run.Checks

/-! ## Judgements -/

/-- What a name stands for, if anything. -/
def Run.getting (frame : FrameId) (name : String) : Run (Option Value) := fun s => .value (s.get? frame name) s

/-- What two runs come to, as far as evaluation hands it on. -/
structure Judgement extends Agreement where
  /-- From where there are `n` frames the runs come to results that are related where they end. -/
  Holds {α β : Type} (n : Nat) (x : Run α) (y : Run β) (Q : Nat → α → β → Prop) : Prop
  /-- The frames in which there may be evaluations. -/
  within : Nat → FrameId → Prop
  /-- The relation of bindings with which frames may be added. -/
  bound : Nat → Bindings → Bindings → Prop
  within_mono {m n : Nat} {frame : FrameId} : m ≤ n → within m frame → within n frame
  refers_of_within {n : Nat} {frame : FrameId} : within n frame → refers n frame
  bound_nil {n : Nat} : bound n [] []
  bound_single {n : Nat} (name : String) {v w : Value} : agree n v w → bound n [(name, v)] [(name, w)]
  pure {α β : Type} {n : Nat} {a : α} {b : β} {Q : Nat → α → β → Prop} : Q n a b → Holds n (Pure.pure a) (Pure.pure b) Q
  bind {α α' β β' : Type} {n : Nat} {x : Run α} {y : Run β} {f : α → Run α'} {g : β → Run β'}
    {P : Nat → α → β → Prop} {Q : Nat → α' → β' → Prop} : Holds n x y P →
    (∀ m ≥ n, ∀ a b, P m a b → Holds m (f a) (g b) Q) → Holds n (x >>= f) (y >>= g) Q
  handle {n : Nat} {x y : Run Value} {f g : Fault → Run Value} : Holds n x y agree →
    (∀ m ≥ n, ∀ fault fault' : Fault, agree m fault.caught fault'.caught → Holds m (f fault) (g fault') agree) →
    Holds n (x.handle f) (y.handle g) agree
  halt {α β : Type} {n : Nat} (Q : Nat → α → β → Prop) : Holds n (Run.halt .steps) (Run.halt .steps) Q
  failKind {α β : Type} {n : Nat} (cause : KindFault) (Q : Nat → α → β → Prop) :
    Holds n (Run.failKind cause) (Run.failKind cause) Q
  failArity {α β : Type} {n : Nat} (cause : ArityFault) (Q : Nat → α → β → Prop) :
    Holds n (Run.fail (.arity cause)) (Run.fail (.arity cause)) Q
  failUnbound {α β : Type} {n : Nat} (name : String) (Q : Nat → α → β → Prop) :
    Holds n (Run.fail (.unbound name)) (Run.fail (.unbound name)) Q
  failInspecting {α β : Type} {n : Nat} {v w : Value} (cause : String → KindFault) (Q : Nat → α → β → Prop) :
    agree n v w → Holds n (Run.failInspecting v cause) (Run.failInspecting w cause) Q
  getting {n : Nat} (frame : FrameId) (name : String) :
    Holds n (Run.getting frame name) (Run.getting frame name) fun m => Option.Rel (agree m)
  define {n : Nat} {frame : FrameId} (name : String) {v w : Value} : within n frame → agree n v w →
    Holds n (Run.define frame name v) (Run.define frame name w) fun _ _ _ => True
  newFrame {n : Nat} {outer : FrameId} {as bs : Bindings} : refers n outer → bound n as bs →
    Holds n (Run.newFrame (some outer) as) (Run.newFrame (some outer) bs) fun m a b => a = b ∧ within m a
  requireKey {n : Nat} (name : String) {v w : Value} : agree n v w →
    Holds n (Run.requireKey name v) (Run.requireKey name w) fun m _ _ => key m v w
  parameters {n : Nat} {forms forms' : List Value} : List.Forall₂ (agree n) forms forms' →
    Holds n (Parameters.ofForms forms) (Parameters.ofForms forms') fun _ => Eq
  arguments {n : Nat} (params : Parameters) {args args' : List Value} : List.Forall₂ (agree n) args args' →
    Holds n (params.bind args) (params.bind args') bound

namespace Judgement

variable (J : Judgement) {n : Nat}

theorem check {α α' β β' : Type} {x : Run α} {y : Run β} {f : α → Run α'} {g : β → Run β'} {P : α → β → Prop}
    {Q : Nat → α' → β' → Prop} (h : Run.Checks P x y) (hf : ∀ a b, P a b → J.Holds n (f a) (g b) Q) :
    J.Holds n (x >>= f) (y >>= g) Q := by
  cases h with
  | passed hab => exact hf _ _ hab
  | kind cause => exact J.failKind cause Q
  | arity cause => exact J.failArity cause Q

end Judgement

end SmallLisp
