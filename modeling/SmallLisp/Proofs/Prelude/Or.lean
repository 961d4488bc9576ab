/-
The macro `or`. A call with several operands becomes a frame of its own, in which the first operand is
evaluated, its value is bound to a name of the macro's, and the call for the other operands takes place.
Main statement: the operands are evaluated from the left up to the first that is truthy, each of them in a frame
around which there are only new frames and then those around the call (`or_evaluates`).
-/
import SmallLisp.Proofs.Evaluation.Frames
import SmallLisp.Proofs.Evaluation.Template
import SmallLisp.Proofs.Prelude.Macros

namespace SmallLisp

open Run (Climbs Comes Keeps comes_bind_congr comes_bind_of_value comes_iff_of_eq comes_value_iff)
open SpecialForm (bindInTurn)
open Template (Regular)

/-! ## What the operands stand for -/

/-- Evaluates operands from the left up to the first that is truthy, and comes to the value of the last one that
it evaluates. Every operand but the last has a frame of its own, inside of the one of the operand before it, and
its value is bound there afterwards. Each operand that is looked at leaves a frame behind as well, of the call of
the macro, in which nothing is evaluated. -/
def evalAlternatives (eval : Evaluator) (frame : FrameId) : List Value → Run Value
  | [] => do
    let _ ← Run.newFrame (some rootFrame) [("xs", .ofList [])]
    return .nil
  | [last] => do
    let _ ← Run.newFrame (some rootFrame) [("xs", .ofList [last])]
    eval last frame
  | operand :: next :: operands => do
    let _ ← Run.newFrame (some rootFrame) [("xs", .ofList (operand :: next :: operands))]
    let inner ← Run.newFrame (some frame) []
    let v ← eval operand inner
    Run.define inner orValue v
    if v.isTruthy then return v else evalAlternatives eval inner (next :: operands)

/-- What comes after an operand that others follow. -/
def evalAlternative (eval : Evaluator) (inner : FrameId) (operands : List Value) (v : Value) : Run Value := do
  Run.define inner orValue v
  if v.isTruthy then return v else evalAlternatives eval inner operands

/-- The state in which the first of several operands is evaluated, in the frame that is added last. -/
def State.withOperandFrame (s : State) (frame : FrameId) (operands : List Value) : State :=
  (s.withMacroFrame operands).addFrame ⟨some frame, []⟩

/-- The frame that is added last. -/
def State.operandFrame (s : State) : FrameId := s.frames.size + 1

/-- The names keep their meaning as long as no operand is truthy. -/
def State.KeepsOr (s : State) (frame : FrameId) : List Value → Prop
  | operand :: next :: operands => s.HasMacro frame orMacro ∧ ∀ v t,
    Comes (fun n => evaluate n operand s.operandFrame) (s.withOperandFrame frame (operand :: next :: operands))
      (.value v t) →
    (t.define s.operandFrame orValue v).NoMacros s.operandFrame ["if"] ∧
      (v.isTruthy = false → (t.define s.operandFrame orValue v).KeepsOr s.operandFrame (next :: operands))
  | _ => s.HasMacro frame orMacro

/-! ## The body -/

/-- The choice between the value of an operand and the operands after it. -/
def orChoice (operands : List Value) : Value :=
  .ofList [.symbol "if", .symbol orValue, .symbol orValue, .ofList (.symbol "or" :: operands)]

/-- What `or` makes of operands. -/
def orExpansion : List Value → Value
  | [] => .nil
  | [last] => last
  | operand :: operands => .ofList [.symbol "let*", .ofList [.symbol orValue, operand], orChoice operands]

/-- Whether an item of a list may be there in a regular template. -/
def RegularItem (item : Value) : Prop := item ≠ .symbol "unquote" ∧
  ((∃ form, item.argumentsOf? "splice-unquote" = some [form]) ∨
    item.argumentsOf? "splice-unquote" = none ∧ Regular item)

theorem regular_ofList {item : Value} {items : List Value} (hitem : RegularItem item)
    (h : ∀ part ∈ items, RegularItem part) :
    Regular (.ofList (item :: items)) := by
  have hparts : ∀ part ∈ item :: items, RegularItem part := List.forall_mem_cons.2 ⟨hitem, h⟩
  refine .row rfl ?_ (fun late hlate => (h late hlate).1) (fun part hpart args hargs => ?_) fun part hpart hnone => ?_
  · cases item with
    | symbol name =>
      have hname : name ≠ "unquote" := fun he => hitem.1 (congrArg Value.symbol he)
      simp [Value.ofList, Value.argumentsOf?, hname]
    | _ => rfl
  · rcases (hparts part hpart).2 with ⟨form, hform⟩ | ⟨hnone, -⟩
    · rw [hform] at hargs
      cases hargs
      rfl
    · rw [hnone] at hargs
      cases hargs
  · rcases (hparts part hpart).2 with ⟨form, hform⟩ | ⟨-, hregular⟩
    · rw [hform] at hnone
      cases hnone
    · exact hregular

theorem regular_orTemplate : Regular orTemplate := by
  have hsymbol : ∀ name, name ≠ "unquote" → RegularItem (.symbol name) := fun name hname =>
    ⟨fun he => hname (Value.symbol.inj he), .inr ⟨rfl, .constant rfl⟩⟩
  have hnosymbol : ∀ items, Value.ofList items ≠ .symbol "unquote" := fun _ he => Value.noConfusion he
  have hlist : ∀ {name items}, name ≠ "splice-unquote" → Regular (.ofList (.symbol name :: items)) →
      RegularItem (.ofList (.symbol name :: items)) := fun hname h =>
    ⟨hnosymbol _, .inr ⟨by simp [Value.ofList, Value.argumentsOf?, hname], h⟩⟩
  have hfirst := hlist (by decide) (.hole firstForm .nil)
  have hrest : RegularItem (.ofList [.symbol "splice-unquote", restForm]) := ⟨hnosymbol _, .inl ⟨restForm, rfl⟩⟩
  have hvalue := hsymbol orValue (by decide)
  have hbinding := hlist (by decide) (regular_ofList hvalue (List.forall_mem_singleton.2 hfirst))
  have hcall := hlist (by decide) (regular_ofList (hsymbol "or" (by decide)) (List.forall_mem_singleton.2 hrest))
  have hchoice := hlist (by decide) (regular_ofList (hsymbol "if" (by decide))
    (List.forall_mem_cons.2 ⟨hvalue, List.forall_mem_cons.2 ⟨hvalue, List.forall_mem_singleton.2 hcall⟩⟩))
  exact regular_ofList (hsymbol "let*" (by decide)) (List.forall_mem_cons.2
    ⟨hbinding, List.forall_mem_singleton.2 hchoice⟩)

section Body

variable {s : State} {frame : FrameId} {forms : List Value} (h : s.HasPrimitives frame orMacro.primitives)
  (hnames : s.NoMacros frame ["if", "quote", "quasiquote"]) (hxs : s.get? frame "xs" = some (.ofList forms))
include h hxs

theorem gives_isEmpty : s.Gives frame (.ofList [.symbol "empty?", .symbol "xs"]) (.bool ((forms.length : Int) == 0)) :=
  gives_primitive (by decide) (h .isEmpty (by decide)) (.cons (gives_symbol hxs) .nil) fun _ _ => rfl

theorem gives_isSingle :
    s.Gives frame (.ofList [.symbol "=", .int 1, countForm]) (.bool ((1 : Int) == forms.length)) := by
  refine gives_primitive (by decide) (h .equals (by decide))
    (.cons (gives_int 1) (.cons (gives_countForm h hxs (by decide)) .nil)) fun _ _ => ?_
  rw [← Bool.and_true ((1 : Int) == forms.length)]
  rfl

include hnames

/-- The template is filled with the first form and the ones after it. -/
theorem gives_orTemplate {operand next : Value} {operands : List Value} (hforms : forms = operand :: next :: operands) :
    s.Gives frame (.ofList [.symbol "quasiquote", orTemplate]) (orExpansion forms) := by
  have hbuilders : s.HasBuilders frame := ⟨hnames "quote" (by decide), hnames "quasiquote" (by decide),
    h .cons (by decide), h .concat (by decide)⟩
  have hfirst := gives_firstForm h hxs (by decide)
  have hrest := gives_restForm h hxs (by decide)
  have hkeeps : s.KeepsBuilders frame (Template.holes orTemplate) := by
    refine .of_unchanged hbuilders fun hole hmem steps v t hv => ?_
    have hsame : ∃ w, s.Gives frame hole.form w := by
      have hholes : Template.holes orTemplate = [⟨firstForm, false⟩, ⟨restForm, true⟩] := by rfl
      simp only [hholes, List.mem_cons, List.not_mem_nil, or_false] at hmem
      rcases hmem with rfl | rfl
      · exact ⟨_, hfirst⟩
      · exact ⟨_, hrest⟩
    obtain ⟨w, hw⟩ := hsame
    exact (Outcome.value.inj ((evaluate_climbs _ _).unique (comes_value_iff.2 ⟨steps, hv⟩) hw)).2
  refine (quasiquote_comes regular_orTemplate hkeeps .nil _).2 ?_
  obtain ⟨n, hn⟩ := comes_value_iff.1 (evalEach_of_gives (.cons hfirst (.cons hrest .nil)))
  refine comes_value_iff.2 ⟨n, ((rebuild_fills regular_orTemplate).value_iff s _ s).2 ⟨_, hn, ?_, ?_⟩⟩
  · exact .cons nofun (.cons (fun _ => .inr rfl) .nil)
  · subst hforms
    have hfill : Template.fill orTemplate [operand, .ofList (next :: operands)] = .ofList [.symbol "let*",
        .ofList [.symbol orValue, operand], .ofList [.symbol "if", .symbol orValue, .symbol orValue,
          .ofList (.symbol "or" :: (next :: operands ++ []))]] := by rfl
    rw [List.append_nil] at hfill
    exact hfill.symm

theorem gives_orBody : s.Gives frame orBody (orExpansion forms) := by
  have hif := hnames "if" (by decide)
  refine (comes_conditional_of_gives hif (by simp) .nil (gives_isEmpty h hxs) _).2 ?_
  match forms, hxs with
  | [], _ => exact comes_value_iff.2 ⟨1, rfl⟩
  | [last], hxs =>
    refine (comes_conditional_of_gives hif (by simp) .nil (gives_isSingle h hxs) _).2 ?_
    exact gives_firstForm h hxs (by decide)
  | operand :: next :: operands, hxs =>
    have hempty : (((operand :: next :: operands).length : Int) == 0) = false := by
      simp only [List.length_cons, beq_eq_false_iff_ne]
      omega
    have hsingle : ((1 : Int) == ((operand :: next :: operands).length : Int)) = false := by
      simp only [List.length_cons, beq_eq_false_iff_ne]
      omega
    rw [hempty]
    refine (comes_conditional_of_gives hif (by simp) .nil (gives_isSingle h hxs) _).2 ?_
    rw [hsingle]
    exact gives_orTemplate h hnames hxs rfl

end Body

/-! ## Calls -/

section Calls

variable {s : State} {frame : FrameId}

theorem State.KeepsOr.here {operands : List Value} (h : s.KeepsOr frame operands) : s.HasMacro frame orMacro := by
  match operands, h with
  | [], h | [_], h => exact h
  | _ :: _ :: _, h => exact h.1

/-- What the macro makes of operands, in the state that its call leaves behind. -/
theorem comes_orMacro (h : s.HasMacro frame orMacro) (hs : s.IsTree) (operands : List Value) :
    Comes (calling orMacro.function operands frame) s (.value (orExpansion operands) (s.withMacroFrame operands)) := by
  obtain ⟨hused, hprimitives, hcalling⟩ := h.comes_calling hs operands
  exact (hcalling _).2 (gives_orBody hprimitives hused (s.get?_withMacroFrame_xs operands))

theorem evalAlternatives_below {eval eval' : Evaluator} (h : ∀ form frame, (eval form frame).Below (eval' form frame))
    (frame : FrameId) (operands : List Value) :
    (evalAlternatives eval frame operands).Below (evalAlternatives eval' frame operands) := by
  induction operands generalizing frame with
  | nil => exact .refl _
  | cons operand later ih =>
    cases later with
    | nil => exact .bind (.refl _) fun _ => h operand frame
    | cons next operands =>
      refine .bind (.refl _) fun _ => .bind (.refl _) fun inner => .bind (h operand inner) fun v =>
        .bind (.refl _) fun _ => ?_
      split
      · exact .refl _
      · exact ih inner

theorem evalAlternatives_climbs (frame : FrameId) (operands : List Value) :
    Climbs fun n => evalAlternatives (evaluate n) frame operands :=
  fun _ _ hmn => evalAlternatives_below (evaluate_below hmn) frame operands

theorem evalAlternative_climbs (inner : FrameId) (operands : List Value) (v : Value) :
    Climbs fun n => evalAlternative (evaluate n) inner operands v :=
  .bind (.const _) fun _ => .ite (.const _) (evalAlternatives_climbs inner operands) v.isTruthy

/-! ### The frame of an operand -/

namespace State

theorem size_withOperandFrame (s : State) (frame : FrameId) (operands : List Value) :
    (s.withOperandFrame frame operands).frames.size = s.operandFrame + 1 := by
  rw [withOperandFrame, addFrame, Array.size_push, size_withMacroFrame, operandFrame]

theorem growsTo_withOperandFrame (s : State) (frame : FrameId) (operands : List Value) :
    s.GrowsTo (s.withOperandFrame frame operands) :=
  (GrowsTo.addFrame s rootFrame _).trans (.addFrame _ frame [])

theorem getElem?_withOperandFrame (s : State) (frame : FrameId) (operands : List Value) :
    (s.withOperandFrame frame operands).frames[s.operandFrame]? = some ⟨some frame, []⟩ := by
  rw [operandFrame, ← s.size_withMacroFrame operands]
  exact Array.getElem?_push_size

variable {t : State} {v operand : Value} {operands : List Value}

theorem Chained.withOperandFrame (hs : s.Chained) (hframe : frame < s.frames.size)
    (hforms : ∀ form ∈ operands, form.FramesBelow s.frames.size) : (s.withOperandFrame frame operands).Chained :=
  (hs.withMacroFrame hforms).addFrame (s.size_withMacroFrame operands ▸ Nat.lt_succ_of_lt hframe) fun _ h =>
    absurd h List.not_mem_nil

/-- The state after an operand, when its value has been bound. -/
theorem Chained.taken (hs : s.Chained) (hframe : frame < s.frames.size)
    (hforms : ∀ form ∈ operand :: operands, form.FramesBelow s.frames.size)
    (hv : Comes (fun n => evaluate n operand s.operandFrame) (s.withOperandFrame frame (operand :: operands))
      (.value v t)) :
    (t.define s.operandFrame orValue v).Chained ∧ (s.withOperandFrame frame (operand :: operands)).GrowsTo
      (t.define s.operandFrame orValue v) ∧
      s.operandFrame < t.frames.size := by
  have hsize := (s.growsTo_withOperandFrame frame (operand :: operands)).size_le
  obtain ⟨hoperand, -⟩ := List.forall_mem_cons.1 hforms
  have hoperandFrame : s.operandFrame < (s.withOperandFrame frame (operand :: operands)).frames.size :=
    s.size_withOperandFrame _ _ ▸ Nat.lt_succ_self _
  obtain ⟨ht, hgrown, hvalue⟩ := (hs.withOperandFrame hframe hforms).comes (hoperand.mono hsize) hoperandFrame hv
  exact ⟨ht.define hvalue _ _, hgrown.trans (.define t _ _ _), Nat.lt_of_lt_of_le hoperandFrame hgrown.size_le⟩

/-- The frame of an operand takes none of the names away. -/
theorem HasMacro.withOperandFrame (h : s.HasMacro frame orMacro) (hs : s.IsTree) (operands : List Value) :
    (s.withOperandFrame frame operands).HasMacro s.operandFrame orMacro := by
  rw [operandFrame, ← s.size_withMacroFrame operands]
  exact (h.withMacroFrame hs operands).inner (hs.addFrame hs.root_lt _) fun _ _ => rfl

end State

section Several

variable {operand next : Value} {operands : List Value}

/-- What follows the value of an operand: it is bound, and then it is asked for. -/
def bindChoosing (operands : List Value) (inner : FrameId) (n : Nat) (v : Value) : Run Value := do
  Run.define inner orValue v
  evaluate n (orChoice operands) inner

theorem bindChoosing_climbs (operands : List Value) (inner : FrameId) (v : Value) :
    Climbs fun n => bindChoosing operands inner n v := .bind (.const _) fun _ => evaluate_climbs _ _

/-- A call with several operands begins with the first one, in a frame of its own. -/
theorem comes_or_first (h : s.HasMacro frame orMacro) (hs : s.IsTree) (info : Value) (o : Outcome Value) :
    Comes (fun n => evaluate n (.list (.symbol "or" :: operand :: next :: operands) info) frame) s o ↔
      Comes (fun n => do bindChoosing (next :: operands) s.operandFrame n (← evaluate n operand s.operandFrame))
        (s.withOperandFrame frame (operand :: next :: operands)) o := by
  have hlet := (h.withMacroFrame hs (operand :: next :: operands)).made "let*" (by decide)
  have hbound := comes_letIn_single hlet orValue operand (orChoice (next :: operands)) .nil o
  rw [s.size_withMacroFrame] at hbound
  exact (comes_evaluate_of_calling (h.macroCall? _ info) (comes_orMacro h hs _) o).trans hbound

theorem evalAlternatives_first (o : Outcome Value) :
    Comes (fun n => evalAlternatives (evaluate n) frame (operand :: next :: operands)) s o ↔
      Comes (fun n => do
        evalAlternative (evaluate n) s.operandFrame (next :: operands) (← evaluate n operand s.operandFrame))
        (s.withOperandFrame frame (operand :: next :: operands)) o := by
  refine comes_iff_of_eq (evalAlternatives_climbs frame _) ((evaluate_climbs operand s.operandFrame).bind
    (evalAlternative_climbs s.operandFrame (next :: operands))) (m := 0) (j := 0) (k := 0) (fun n _ => ?_) o
  rw [State.operandFrame, ← s.size_withMacroFrame]
  rfl

/-- The value of an operand is what the call comes to, or the call for the other operands follows. -/
theorem comes_bindChoosing {t : State} {v : Value} {inner : FrameId} (hinner : inner < t.frames.size)
    (hif : (t.define inner orValue v).NoMacros inner ["if"]) (o : Outcome Value) :
    Comes (fun n => bindChoosing operands inner n v) t o ↔
      Comes (fun n => if v.isTruthy then pure v else evaluate n (.ofList (.symbol "or" :: operands)) inner)
        (t.define inner orValue v) o := by
  have hgives : (t.define inner orValue v).Gives inner (.symbol orValue) v :=
    gives_symbol (State.get?_define_self hinner)
  refine (comes_bind_of_value (.const _) (fun _ => evaluate_climbs _ _) (comes_value_iff.2 ⟨0, rfl⟩) o).trans ?_
  refine (comes_conditional_of_gives (hif "if" (List.mem_singleton_self _)) (by simp) .nil hgives o).trans ?_
  unfold chosen
  cases v.isTruthy with
  | true =>
    have hreturned : Comes (fun _ => pure v) (t.define inner orValue v) (.value v (t.define inner orValue v)) :=
      comes_value_iff.2 ⟨0, rfl⟩
    exact ((evaluate_climbs _ _).comes_iff hgives).trans ((Climbs.const _).comes_iff hreturned).symm
  | false => exact .rfl

end Several

/-- Where the names keep their meaning, a call of `or` comes to what its operands stand for. -/
theorem comes_or (frame : FrameId) : ∀ (operands : List Value) (s : State), s.Chained →
    (∀ form ∈ operands, form.FramesBelow s.frames.size) → s.KeepsOr frame operands →
    ∀ info o, Comes (fun n => evaluate n (.list (.symbol "or" :: operands) info) frame) s o ↔
      Comes (fun n => evalAlternatives (evaluate n) frame operands) s o
  | [], s, hs, _, h, info, o => by
    refine (comes_evaluate_of_calling (h.macroCall? _ info) (comes_orMacro h hs.isTree []) o).trans ?_
    exact comes_iff_of_eq (evaluate_climbs _ _) (evalAlternatives_climbs frame []) (m := 0) (j := 1) (k := 0)
      (fun _ _ => rfl) o
  | [last], s, hs, _, h, info, o => by
    refine (comes_evaluate_of_calling (h.macroCall? _ info) (comes_orMacro h hs.isTree [last]) o).trans ?_
    exact comes_iff_of_eq (evaluate_climbs _ _) (evalAlternatives_climbs frame _) (m := 0) (j := 0) (k := 0)
      (fun _ _ => rfl) o
  | operand :: next :: operands, s, hs, hforms, ⟨hor, hlater⟩, info, o => by
    refine (comes_or_first hor hs.isTree info o).trans (.trans ?_ (evalAlternatives_first o).symm)
    refine comes_bind_congr (evaluate_climbs operand s.operandFrame) (evaluate_climbs operand s.operandFrame)
      (bindChoosing_climbs (next :: operands) s.operandFrame) (evalAlternative_climbs s.operandFrame (next :: operands))
        (fun _ => .rfl)
      (fun v t hv o => ?_) o
    obtain ⟨ht, hgrown, hlt⟩ := hs.taken hor.frame_lt hforms hv
    obtain ⟨hif, hfalsy⟩ := hlater v t hv
    refine (comes_bindChoosing hlt hif o).trans (.trans ?_ (comes_bind_of_value (.const _)
      (fun _ => .ite (.const (pure v)) (evalAlternatives_climbs s.operandFrame _) _)
        (comes_value_iff.2 ⟨0, rfl⟩) o).symm)
    cases hv : v.isTruthy with
    | true => exact .rfl
    | false =>
      have hrest := fun form hform => (hforms form (List.mem_cons_of_mem _ hform)).mono
        ((s.growsTo_withOperandFrame _ _).trans hgrown).size_le
      exact comes_or s.operandFrame (next :: operands) _ ht hrest (hfalsy hv) .nil o

/-! ## Where operands are evaluated -/

/-- The evaluation of operands, begun in a frame from a state, comes to one of them: to be evaluated in some frame
from some state. -/
inductive Tries : State → FrameId → List Value → State → FrameId → Value → Prop where
  | last (s : State) (frame : FrameId) (operand : Value) :
    Tries s frame [operand] (s.withMacroFrame [operand]) frame operand
  | first (s : State) (frame : FrameId) (operand next : Value) (operands : List Value) :
    Tries s frame (operand :: next :: operands) (s.withOperandFrame frame (operand :: next :: operands))
      s.operandFrame operand
  | later {s t u : State} {frame inner : FrameId} {operand next reached v : Value} {operands : List Value} :
    Comes (fun n => evaluate n operand s.operandFrame) (s.withOperandFrame frame (operand :: next :: operands))
      (.value v t) →
    v.isTruthy = false → Tries (t.define s.operandFrame orValue v) s.operandFrame (next :: operands) u inner reached →
    Tries s frame (operand :: next :: operands) u inner reached

/-- Around an operand there are new frames, and then the frames around the call. -/
theorem Tries.around {operands : List Value} {t : State} {inner : FrameId} {operand : Value}
    (h : Tries s frame operands t inner operand) (hs : s.Chained) (hframe : frame < s.frames.size)
    (hforms : ∀ form ∈ operands, form.FramesBelow s.frames.size) :
    t.Chained ∧ s.GrowsTo t ∧
      ∃ between, t.chain inner = between ++ t.chain frame ∧ ∀ id ∈ between, s.frames.size ≤ id := by
  induction h with
  | last s frame operand => exact ⟨hs.withMacroFrame hforms, .addFrame _ _ _, [], rfl, nofun⟩
  | first s frame operand next operands =>
    have hadded := hs.withOperandFrame hframe hforms
    have hchain := hadded.isTree.chain_eq (s.getElem?_withOperandFrame frame _)
    exact ⟨hadded, s.growsTo_withOperandFrame _ _, [s.operandFrame], hchain,
      List.forall_mem_singleton.2 (Nat.le_succ _)⟩
  | @later s t u frame inner operand next reached v operands hv _ _ ih =>
    obtain ⟨ht, hgrown, hlt⟩ := hs.taken hframe hforms hv
    have hsize := ((s.growsTo_withOperandFrame _ _).trans hgrown).size_le
    obtain ⟨hu, hgrows, between, hchain, hnew⟩ := ih ht (Nat.lt_of_lt_of_le hlt (State.GrowsTo.define t _ _ _).size_le)
      fun form hform => (hforms form (List.mem_cons_of_mem _ hform)).mono hsize
    -- the frame of the operand before is inside of the frame of the call still
    obtain ⟨⟨outer?, bindings⟩, hkept, hframe'⟩ := (hgrown.trans hgrows).kept s.operandFrame _
      (s.getElem?_withOperandFrame frame _)
    obtain rfl : outer? = some frame := hframe'.outer_eq
    refine ⟨hu, ((s.growsTo_withOperandFrame _ _).trans hgrown).trans hgrows, between ++ [s.operandFrame], ?_, ?_⟩
    · rw [hchain, hu.isTree.chain_eq hkept, List.append_assoc]
      rfl
    · intro id hid
      rcases List.mem_append.1 hid with hid | hid
      · exact Nat.le_trans hsize (hnew id hid)
      · exact List.mem_singleton.1 hid ▸ Nat.le_succ _

/-! ## Which frames change -/

section Frames

variable {old : Array Frame} {writable : FrameId → Prop} {eval : Evaluator}
  (h : ∀ form frame, Free old writable frame → Keeps (Intact old writable) (eval form frame) fun _ => True)
include h

/-- If there are several operands, none of them is evaluated in the frame of the call. -/
theorem evalAlternatives_keeps (frame : FrameId) : ∀ operands : List Value,
    (Free old writable frame ∨ 2 ≤ operands.length) →
    Keeps (Intact old writable) (evalAlternatives eval frame operands) fun _ => True
  | [], _ => .bind (newFrame_keeps _ _) fun _ _ => .pure trivial
  | [last], hframe => by
    have hfree : Free old writable frame := hframe.resolve_right (by simp)
    exact .bind (newFrame_keeps _ _) fun _ _ => h last frame hfree
  | operand :: next :: operands, _ => by
    refine .bind (newFrame_keeps _ _) fun _ _ => .bind (newFrame_keeps _ _) fun inner hinner =>
      .bind (h operand inner hinner) fun v _ => .bind (define_keeps hinner _ _) fun _ _ => ?_
    split
    · exact .pure trivial
    · exact evalAlternatives_keeps inner (next :: operands) (.inl hinner)

end Frames

/-- Several operands keep every frame that was there before, the one of the call as well. Only the root frame may
change, through the primitive `eval`: with `eval` sealed, the evaluation of the operands then does not end. -/
theorem evalAlternatives_frames {operands : List Value} (hlength : 2 ≤ operands.length)
    (hroot : rootFrame < s.frames.size)
    {o : Outcome Value} (ho : Comes (fun n => evalAlternatives (evaluate n) frame operands) s o) :
    (∀ id < s.frames.size, id ≠ rootFrame → o.state.frames[id]? = s.frames[id]?) ∧
    (o.state.frames[rootFrame]? ≠ s.frames[rootFrame]? →
      ∀ n, ¬(evalAlternatives (evaluateSealed n) frame operands s).Ended) := by
  obtain ⟨m, rfl, hend⟩ := ho
  constructor
  · intro id hid hne
    have hroot : Free s.frames (· = rootFrame) rootFrame := .inr rfl
    have hkeeps := evalAlternatives_keeps (evaluate_keeps hroot m) frame operands (.inr hlength)
    exact (hkeeps s (intact_refl s)).1.kept id hid hne
  · intro hchanged n hn
    have hkeeps : Keeps (Intact s.frames fun _ => False) (evalAlternatives (evaluateSealed n) frame operands)
        fun _ => True :=
      evalAlternatives_keeps (evaluateSealed_keeps n) frame operands (.inr hlength)
    have hkept := (hkeeps s (intact_refl s)).1.kept rootFrame hroot not_false
    -- the sealed run ended, so it is the run of the operands, which ends in one way only
    have heq := (evalAlternatives_below (evaluateSealed_below n) frame operands).eq_of_ended hn
    have hsame := (evalAlternatives_climbs frame operands).unique ⟨m, rfl, hend⟩ ⟨n, heq.symm, hn⟩
    exact hchanged (hsame ▸ hkept)

/-! ## The macro -/

/-- Where the names keep their meaning, a call of `or` evaluates its operands from the left, each at most once, up to
the first that is truthy, and comes to the value of the last one that it evaluates or to the first fault. Around an
operand there are new frames, and then the frames around the call: what the new frames do not bind means what it
means where `or` is called. If there are several operands, every frame that was there before is kept, the one of the
call as well; only the root frame may change, if an operand calls the primitive `eval`. -/
theorem or_evaluates {s : State} {frame : FrameId} {operands : List Value} (hs : s.Chained)
    (hforms : ∀ form ∈ operands, form.FramesBelow s.frames.size) (h : s.KeepsOr frame operands) :
    (∀ info o, Comes (fun n => evaluate n (.list (.symbol "or" :: operands) info) frame) s o ↔
      Comes (fun n => evalAlternatives (evaluate n) frame operands) s o) ∧
    (∀ t inner operand, Tries s frame operands t inner operand → ∃ between, t.chain inner = between ++ t.chain frame ∧
      (∀ id ∈ between, s.frames.size ≤ id) ∧
      ∀ name, (∀ id ∈ between, t.bindingAt name id = none) → t.resolve? inner name = t.resolve? frame name) ∧
    (2 ≤ operands.length → ∀ o, Comes (fun n => evalAlternatives (evaluate n) frame operands) s o →
      (∀ id < s.frames.size, id ≠ rootFrame → o.state.frames[id]? = s.frames[id]?) ∧
      (o.state.frames[rootFrame]? ≠ s.frames[rootFrame]? →
        ∀ n, ¬(evalAlternatives (evaluateSealed n) frame operands s).Ended)) := by
  have hframe := h.here.frame_lt
  refine ⟨comes_or frame operands s hs hforms h, fun t inner operand htries => ?_,
    fun hlength o ho => evalAlternatives_frames hlength hs.isTree.root_lt ho⟩
  obtain ⟨-, -, between, hchain, hnew⟩ := htries.around hs hframe hforms
  refine ⟨between, hchain, hnew, fun name hname => ?_⟩
  rw [t.resolve?_eq_findSome?, t.resolve?_eq_findSome?, hchain, List.findSome?_append,
    List.findSome?_eq_none_iff.2 hname]
  rfl

/-- The form of a definition. -/
def defining (name : String) (form : Value) : Value := .ofList [.symbol "def!", .symbol name, form]

theorem or_evaluates_defining :
    let s := afterPrelude.addFrame ⟨some rootFrame, [("x", .int 10)]⟩
    let operands := [defining "y" .nil, .symbol "x"]
    s.Chained ∧ (∀ form ∈ operands, form.FramesBelow s.frames.size) ∧ s.KeepsOr 1 operands ∧ 2 ≤ operands.length ∧
      ∃ t, Comes (fun n => evaluate n (.ofList (.symbol "or" :: operands)) 1) s (.value (.int 10) t) ∧
        t.frames[1]? = s.frames[1]? := by
  intro s operands
  have hs : s.Chained := afterPrelude_chained.addFrame afterPrelude_chained.isTree.root_lt
    (List.forall_mem_singleton.2 (Likeness.Alike.framesBelow (.int 10)))
  have hforms : ∀ form ∈ operands, form.FramesBelow s.frames.size := by
    simp only [operands, List.forall_mem_cons]
    exact ⟨Value.framesBelow_ofList (by simpa using ⟨Likeness.Alike.framesBelow (.symbol _),
      Likeness.Alike.framesBelow (.symbol _), Likeness.Alike.framesBelow .nil⟩),
        Likeness.Alike.framesBelow (.symbol _), nofun⟩
  have hor : s.HasMacro 1 orMacro :=
    (initial_hasOr [] (.tree []) "" true 0).inner afterPrelude_chained.isTree (by decide)
  have hkeeps : s.KeepsOr 1 operands := by
    refine ⟨hor, fun v t ht => ?_⟩
    obtain ⟨rfl, rfl⟩ := Outcome.value.inj ((evaluate_climbs _ _).unique (comes_value_iff.2 ⟨2, rfl⟩) ht)
    have htaken := ((hor.withOperandFrame hs.isTree operands).define (by decide : "y" ∉ orMacro.around)
      (by decide) s.operandFrame .nil).define
      (by decide : orValue ∉ orMacro.around) (by decide) s.operandFrame .nil
    exact ⟨fun name hname => htaken.made name (List.mem_cons_of_mem _ hname), fun _ => htaken⟩
  obtain ⟨hcomes, -, hframes⟩ := or_evaluates hs hforms hkeeps
  obtain ⟨t, ht⟩ : ∃ t, Comes (fun n => evalAlternatives (evaluate n) 1 operands) s (.value (.int 10) t) :=
    ⟨_, comes_value_iff.2 ⟨2, rfl⟩⟩
  exact ⟨hs, hforms, hkeeps, by decide, t, (hcomes .nil _).2 ht, (hframes (by decide) _ ht).1 1 (by decide) (by decide)⟩

/-- A call of `or` with a definition as its first operand. -/
def definingFirst : Value := .ofList [.symbol "or", defining "x" (.int 1), .int 2]

/-- The operands are not evaluated in the frame of the call: what one of them defines is not bound there afterwards. An
operand after the first finds the name of the macro's bound to the value of the one before it. And although `let*`,
`if` and `or` have their meaning, the call comes to something else if another name in the root frame has not. -/
theorem or_exceptions :
    let shadowed := afterPrelude.addFrame ⟨some rootFrame, [(orValue, .int 5)]⟩
    let rebound := afterPrelude.define rootFrame "first" (.primitive .count false .nil)
    (afterPrelude.HasMacro rootFrame orMacro ∧
      (∃ t, Comes (fun n => evaluate n (defining "x" (.int 1)) rootFrame) afterPrelude (.value (.int 1) t) ∧
        t.HasMacro rootFrame orMacro ∧ t.get? rootFrame "x" = some (.int 1)) ∧
      ∃ t, Comes (fun n => evaluate n definingFirst rootFrame) afterPrelude (.value (.int 1) t) ∧
        t.get? rootFrame "x" = none) ∧
    (shadowed.HasMacro 1 orMacro ∧
      shadowed.Gives 1 (.bool false) (.bool false) ∧ shadowed.Gives 1 (.symbol orValue) (.int 5) ∧
      ∃ t, Comes (fun n => evaluate n (.ofList [.symbol "or", .bool false, .symbol orValue]) 1) shadowed
        (.value (.bool false) t)) ∧
    rebound.get? rootFrame "or" = some orMacro.function ∧ rebound.NoMacros rootFrame ["let*", "if"] ∧
      ∃ t, Comes (fun n => evaluate n (.ofList [.symbol "or", .nil, .bool true]) rootFrame) rebound
        (.value (.int 2) t) := by
  intro shadowed rebound
  have hor := initial_hasOr [] (.tree []) "" true 0
  have hshadowed : shadowed.HasMacro 1 orMacro := hor.inner afterPrelude_chained.isTree (by decide)
  have hsame : ∀ name ≠ "first", rebound.get? rootFrame name = afterPrelude.get? rootFrame name :=
    fun _ hname => State.get?_define_ne hname _ _
  have hmade : ∀ name ∈ orMacro.made, name ≠ "first" := by decide
  have hdefined : evaluate 2 (defining "x" (.int 1)) rootFrame afterPrelude =
    .value (.int 1) (afterPrelude.define rootFrame "x" (.int 1)) := rfl
  obtain ⟨t, ht⟩ : ∃ t, evaluate 15 definingFirst rootFrame afterPrelude = .value (.int 1) t := ⟨_, rfl⟩
  have hunbound : (evaluate 15 definingFirst rootFrame afterPrelude).state.get? rootFrame "x" = none := rfl
  rw [ht] at hunbound
  obtain ⟨u, hu⟩ : ∃ u, evaluate 15 (.ofList [.symbol "or", .bool false, .symbol orValue]) 1 shadowed =
    .value (.bool false) u := ⟨_, rfl⟩
  obtain ⟨w, hw⟩ : ∃ w, evaluate 15 (.ofList [.symbol "or", .nil, .bool true]) rootFrame rebound =
    .value (.int 2) w := ⟨_, rfl⟩
  refine ⟨⟨hor, ⟨_, comes_value_iff.2 ⟨2, hdefined⟩, hor.define (by decide) (by decide) rootFrame _, rfl⟩,
    t, comes_value_iff.2 ⟨15, ht⟩, hunbound⟩,
    ⟨hshadowed, gives_bool false, gives_symbol rfl, u, comes_value_iff.2 ⟨15, hu⟩⟩,
    (hsame "or" (by decide)).trans hor.bound, hor.made.of_get? fun name hname => hsame _ (hmade name hname),
    w, comes_value_iff.2 ⟨15, hw⟩⟩

end Calls

end SmallLisp
