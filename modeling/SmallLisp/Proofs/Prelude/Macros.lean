/-
The macros of the prelude. What the standard prelude binds is read off its text (`readAll_standardPrelude`,
`eval_standardPrelude`). Both macros take all their argument forms as one list, and their bodies are evaluated
inside of the root frame, so no binding at the place of a call is seen there (`get?_withMacroFrame`).
-/
import SmallLisp.Proofs.Evaluation.Chains
import SmallLisp.Proofs.Evaluation.Quiet
import SmallLisp.Proofs.Session.Frames
import SmallLisp.Proofs.Session.Loading
import SmallLisp.Proofs.Source.Lines

namespace SmallLisp

open Run (Comes comes_iff_of_eq)
open Template (quoting)

/-! ## Names that keep their meaning -/

namespace State

variable {s t : State} {frame frame' : FrameId} {names : List String} {primitives : List Primitive}

theorem initial_noMacros (arguments : List String) (files : Files) (input : String) (inputEnded : Bool) (clock : Nat)
    (names : List String) : (initial arguments files input inputEnded clock).NoMacros rootFrame names := by
  intro name _ v hv
  -- the root frame is the only frame, and there are no cells
  cases holds_of_get? hv with
  | content hcell => cases hcell
  | @bound id frame _ hframe hmem =>
    obtain ⟨hid, hframe⟩ := Array.getElem?_eq_some_iff.1 hframe
    obtain rfl : id = rootFrame := Nat.lt_one_iff.1 hid
    subst hframe
    rcases List.mem_append.1 hmem with hmem | hmem
    · obtain ⟨p, -, hp⟩ := List.mem_map.1 hmem
      cases hp
      rfl
    · cases List.mem_singleton.1 hmem
      rfl

theorem initial_hasPrimitives (arguments : List String) (files : Files) (input : String) (inputEnded : Bool)
    (clock : Nat) (primitives : List Primitive) :
    (initial arguments files input inputEnded clock).HasPrimitives rootFrame primitives := by
  intro p _
  refine ⟨.nil, ?_⟩
  cases p with
  | compare c => cases c <;> rfl
  | query q => cases q <;> rfl
  | _ => rfl

end State

/-! ## The definitions -/

/-- The names that the prelude binds. -/
def preludeNames : List String := ["not", "load-file", "cond", "or"]

/-- A macro of the prelude, which takes all its argument forms as `xs`, by its name and its only form; with the names
that are to keep their meaning for it. -/
structure PreludeMacro where
  name : String
  body : Value
  /-- The special forms in what the macro makes. -/
  made : List String
  /-- The special forms in its body. -/
  used : List String
  /-- The primitives in its body. -/
  primitives : List Primitive
  fresh : ∀ bound ∈ "xs" :: preludeNames, bound ∉ made ∧ bound ∉ used ∧ ∀ p ∈ primitives, p.name ≠ bound

namespace PreludeMacro

variable (m : PreludeMacro)

def function : Value := .closure ⟨[], some "xs", List.not_mem_nil⟩ [m.body] rootFrame true .nil

/-- The names that matter where the macro is called. -/
def around : List String := m.name :: m.made

/-- The names that matter in the root frame. -/
def inside : List String := m.used ++ m.primitives.map Primitive.name

end PreludeMacro

/-- The only form of `not`. -/
def notBody : Value := .ofList [.symbol "if", .symbol "a", .bool false, .bool true]

theorem restMark_notMem_a : restMark ∉ ["a"] := by decide

def notFunction : Value := .closure ⟨["a"], none, restMark_notMem_a⟩ [notBody] rootFrame false .nil

def countForm : Value := .ofList [.symbol "count", .symbol "xs"]

def firstForm : Value := .ofList [.symbol "first", .symbol "xs"]

def restForm : Value := .ofList [.symbol "rest", .symbol "xs"]

def oddForms : String := "odd number of forms to cond"

/-- The form of `cond` for the value of the first clause. -/
def secondForm : Value := .ofList [.symbol "if", .ofList [.symbol ">", countForm, .int 1],
  .ofList [.symbol "nth", .symbol "xs", .int 1], .ofList [.symbol "throw", .str oddForms]]

/-- The form of `cond` for the clauses after the first. -/
def laterForm : Value := .ofList [.symbol "cons", quoting (.symbol "cond"), .ofList [.symbol "rest", restForm]]

def condBody : Value := .ofList [.symbol "if", .ofList [.symbol ">", countForm, .int 0],
  .ofList [.symbol "list", quoting (.symbol "if"), firstForm, secondForm, laterForm]]

def condMacro : PreludeMacro where
  name := "cond"
  body := condBody
  made := ["if"]
  used := ["if", "quote"]
  primitives := [.count, .compare .greater, .list, .first, .nth, .throw, .cons, .rest]
  fresh := by decide

/-- The name that `or` binds the value of an operand to. -/
def orValue : String := "or__value"

/-- The template of what `or` makes of two operands or more. -/
def orTemplate : Value := .ofList [.symbol "let*",
  .ofList [.symbol orValue, .ofList [.symbol "unquote", firstForm]],
  .ofList [.symbol "if", .symbol orValue, .symbol orValue,
    .ofList [.symbol "or", .ofList [.symbol "splice-unquote", restForm]]]]

/-- The form of `or` for one operand or more. -/
def orForm : Value := .ofList [.symbol "if", .ofList [.symbol "=", .int 1, countForm], firstForm,
  .ofList [.symbol "quasiquote", orTemplate]]

def orBody : Value := .ofList [.symbol "if", .ofList [.symbol "empty?", .symbol "xs"], .nil, orForm]

def orMacro : PreludeMacro where
  name := "or"
  body := orBody
  made := ["let*", "if"]
  used := ["if", "quote", "quasiquote"]
  primitives := [.isEmpty, .equals, .count, .first, .rest, .cons, .concat]
  fresh := by decide

/-! ## The prelude -/

section Definitions

open Source

/-- The form of the definition of a macro. -/
def PreludeMacro.form (m : PreludeMacro) : Value := .ofList [.symbol "defmacro!", .symbol m.name,
  .ofList [.symbol "fn*", .ofList [.symbol "&", .symbol "xs"], m.body]]

def notForm : Value :=
  .ofList [.symbol "def!", .symbol "not", .ofList [.symbol "fn*", .ofList [.symbol "a"], notBody]]

/-- The text of lines has the tokens of its lines. -/
theorem tokens_lines : ∀ lines : List String,
    tokens ("\n".intercalate lines).toList = (lines.map fun line => tokens line.toList).flatten
  | [] => rfl
  | [line] => by simp
  | line :: next :: lines => by
    rw [String.intercalate_cons_cons, tokens_lines_append, tokens_lines (next :: lines)]
    rfl

/-- The mark that a list is written with. -/
def mark? : List Value → Option Mark
  | [.symbol name, _] => [Mark.quote, .quasiquote, .unquote, .spliceUnquote].find? (·.head == name)
  | _ => none

mutual

/-- The tokens that code is written with, if it is made of names, constants and lists. -/
def written : Value → List Token
  | .symbol name => [.word name.toList]
  | .nil => [.word "nil".toList]
  | .bool b => [.word (if b then "true" else "false").toList]
  | .int n => [.word (toString n).toList]
  | .str text => [.text ('"' :: (Text.escape text.toList ++ ['"']))]
  | .list items _ =>
    match mark? items with
    -- the mark stands for the head
    | some m => .mark m :: (writtenAll items).tail
    | none => .opening .round :: (writtenAll items ++ [.closing .round])
  | _ => []
termination_by structural v => v

def writtenAll : List Value → List Token
  | [] => []
  | v :: vs => written v ++ writtenAll vs
termination_by structural vs => vs

end

/-- The forms of the prelude. -/
def preludeForms : List Value := [notForm, loadFileForm, condMacro.form, orMacro.form]

set_option maxRecDepth 10000 in
theorem readAll_standardPrelude : readAll standardPrelude = ⟨preludeForms, none, []⟩ := by
  have htokens : tokens standardPrelude.toList = writtenAll preludeForms := by
    rw [standardPrelude, tokens_lines]
    decide +kernel
  rw [readAll, htokens]
  rfl

variable {s : State} (h : s.NoMacros rootFrame ["def!", "defmacro!", "fn*"]) (steps : Nat)
include h

/-- A function is what its definition writes. -/
theorem evaluate_fn (params : Parameters) (hparams : Parameters.ofForms params.forms = pure params) (body : Value) :
    evaluate (steps + 1) (.ofList [.symbol "fn*", .ofList params.forms, body]) rootFrame s =
      .value (.closure params [body] rootFrame false .nil) s := by
  have hname : SpecialForm.ofName? "fn*" = some .function := SpecialForm.ofName?_name .function
  have hparts : Run.oneOrMore SpecialForm.function.name [.ofList params.forms, body] =
      pure (.ofList params.forms, [body]) := rfl
  have hitems : Run.requireItems "fn*" 0 (.ofList params.forms) = pure params.forms := rfl
  refine (evaluate_unexpanded (h "fn*" (by simp)) steps _ .nil).trans ?_
  rw [hname]
  simp only [SpecialForm.value, hparts, hitems, hparams, pure_bind]
  rfl

theorem evaluate_definition (name : String) {form v : Value}
    (hform : evaluate (steps + 1) form rootFrame s = .value v s) :
    evaluate (steps + 2) (.ofList [.symbol "def!", .symbol name, form]) rootFrame s =
      .value v (s.define rootFrame name v) := by
  refine (evaluate_unexpanded (h "def!" (by simp)) (steps + 1) _ .nil).trans ?_
  exact Run.bind_eq_value.2 ⟨_, s, rfl, Run.bind_eq_value.2 ⟨name, s, rfl, Run.bind_eq_value.2 ⟨v, s, hform, rfl⟩⟩⟩

theorem evaluate_form (m : PreludeMacro) :
    evaluate (steps + 2) m.form rootFrame s = .value m.function (s.define rootFrame m.name m.function) := by
  have hvalue := evaluate_fn h steps ⟨[], some "xs", List.not_mem_nil⟩ rfl m.body
  refine (evaluate_unexpanded (h "defmacro!" (by simp)) (steps + 1) _ .nil).trans ?_
  exact Run.bind_eq_value.2 ⟨_, s, rfl, Run.bind_eq_value.2 ⟨m.name, s, rfl, Run.bind_eq_value.2 ⟨_, s, hvalue, rfl⟩⟩⟩

omit h in
/-- What the prelude makes of a state. -/
def State.withPrelude (s : State) : State :=
  (((s.define rootFrame "not" notFunction).define rootFrame "load-file" loadFile).define rootFrame "cond"
    condMacro.function).define rootFrame "or" orMacro.function

/-- The prelude binds its four names in the root frame. -/
theorem eval_standardPrelude : Session.eval (steps + 2) standardPrelude s = .value orMacro.function s.withPrelude := by
  have hdefine : ∀ {s : State}, s.NoMacros rootFrame ["def!", "defmacro!", "fn*"] → ∀ bound ∈ preludeNames, ∀ v,
      (s.define rootFrame bound v).NoMacros rootFrame ["def!", "defmacro!", "fn*"] := by
    intro s h bound hbound v
    have hnames : ∀ bound ∈ preludeNames, bound ∉ ["def!", "defmacro!", "fn*"] := by decide
    exact h.of_get? fun _ hname => State.get?_define_ne (ne_of_mem_of_not_mem hname (hnames bound hbound)) _ _
  have hnot := evaluate_definition h steps "not" (evaluate_fn h steps ⟨["a"], none, restMark_notMem_a⟩ rfl notBody)
  have h := hdefine h "not" (by decide) notFunction
  have hload := evaluate_definition h steps "load-file" (evaluate_fn h steps ⟨["f"], none, by decide⟩ rfl loadBody)
  have h := hdefine h "load-file" (by decide) loadFile
  have hcond := evaluate_form h steps condMacro
  have h := hdefine h "cond" (by decide) condMacro.function
  have hor := evaluate_form h steps orMacro
  unfold Session.eval Session.foldText
  rw [readAll_standardPrelude]
  refine Run.bind_eq_value.2 ⟨orMacro.function, s.withPrelude, ?_, rfl⟩
  -- each form is evaluated where the one before has led to
  refine Run.bind_eq_value.2 ⟨_, _, hnot, Run.bind_eq_value.2 ⟨_, _, rfl, ?_⟩⟩
  refine Run.bind_eq_value.2 ⟨_, _, hload, Run.bind_eq_value.2 ⟨_, _, rfl, ?_⟩⟩
  refine Run.bind_eq_value.2 ⟨_, _, hcond, Run.bind_eq_value.2 ⟨_, _, rfl, ?_⟩⟩
  exact Run.bind_eq_value.2 ⟨_, _, hor, Run.bind_eq_value.2 ⟨_, _, rfl, rfl⟩⟩

end Definitions

namespace State

/-- After the prelude, a session goes on from the state that has its definitions. -/
theorem reachable_withPrelude (arguments : List String) (files : Files) (input : String) (inputEnded : Bool)
    (clock : Nat) :
    Session.Reachable (initial arguments files input inputEnded clock).withPrelude := by
  have hreached := Session.Reachable.eval 2 standardPrelude (.initial arguments files input inputEnded clock)
  rwa [eval_standardPrelude (initial_noMacros arguments files input inputEnded clock _) 0] at hreached

end State

/-- A session after the prelude. -/
def afterPrelude : State := (State.initial [] (.tree []) "" true 0).withPrelude

theorem afterPrelude_chained : afterPrelude.Chained :=
  (State.reachable_withPrelude [] (.tree []) "" true 0).visited.chained

/-! ## Calls of the macros -/

/-- The state in which the body of a macro is evaluated, in the frame that is added last. -/
def State.withMacroFrame (s : State) (forms : List Value) : State :=
    s.addFrame ⟨some rootFrame, [("xs", .ofList forms)]⟩

namespace State

variable {s : State} {name : String} {forms : List Value}

theorem get?_withMacroFrame_xs (s : State) (forms : List Value) :
    (s.withMacroFrame forms).get? s.frames.size "xs" = some (.ofList forms) := get?_addFrame_bound rfl _

theorem size_withMacroFrame (s : State) (forms : List Value) :
    (s.withMacroFrame forms).frames.size = s.frames.size + 1 := Array.size_push _

theorem Chained.withMacroFrame (h : s.Chained) (hforms : ∀ form ∈ forms, form.FramesBelow s.frames.size) :
    (s.withMacroFrame forms).Chained :=
  h.addFrame h.isTree.root_lt (List.forall_mem_singleton.2 (Value.framesBelow_ofList hforms))

namespace IsTree

variable (h : s.IsTree)
include h

/-- All other names have the meaning that they have in the root frame. -/
theorem get?_withMacroFrame (hname : name ≠ "xs") (forms : List Value) :
    (s.withMacroFrame forms).get? s.frames.size name = s.get? rootFrame name :=
  h.get?_addFrame_inner h.root_lt (by simp [Bindings.find?, Ne.symm hname])

end IsTree

end State

/-- Whether a macro of the prelude and the names that it makes use of have the meaning that they have at the start: the
macro itself and the special forms in what it makes where it is called, everything else in the root frame. -/
structure State.HasMacro (s : State) (frame : FrameId) (m : PreludeMacro) : Prop where
  bound : s.get? frame m.name = some m.function
  made : s.NoMacros frame m.made
  used : s.NoMacros rootFrame m.used
  primitives : s.HasPrimitives rootFrame m.primitives

namespace State.HasMacro

variable {s t : State} {frame : FrameId} {m : PreludeMacro} (h : s.HasMacro frame m)
include h

theorem frame_lt : frame < s.frames.size := lt_size_of_get? h.bound

theorem macroCall? (forms : List Value) (info : Value) :
    macroCall? s frame (.list (.symbol m.name :: forms) info) = some (m.function, forms) := by
  simp only [SmallLisp.macroCall?, h.bound]
  rfl

theorem of_get? {frame' : FrameId} (haround : ∀ name ∈ m.around, t.get? frame' name = s.get? frame name)
    (hinside : ∀ name ∈ m.inside, t.get? rootFrame name = s.get? rootFrame name) : t.HasMacro frame' m where
  bound := (haround _ List.mem_cons_self).trans h.bound
  made := h.made.of_get? fun name hname => haround name (List.mem_cons_of_mem _ hname)
  used := h.used.of_get? fun name hname => hinside name (List.mem_append_left _ hname)
  primitives := h.primitives.of_get? fun _ hp => hinside _ (List.mem_append_right _ (List.mem_map_of_mem hp))

theorem define {bound : String} (haround : bound ∉ m.around) (hinside : bound ∉ m.inside) (id : FrameId) (v : Value) :
    (s.define id bound v).HasMacro frame m :=
  h.of_get? (fun _ hname => get?_define_ne (ne_of_mem_of_not_mem hname haround) id _)
    fun _ hname => get?_define_ne (ne_of_mem_of_not_mem hname hinside) id _

variable (hs : s.IsTree)
include hs

/-- A new frame does not matter to the older ones. -/
theorem addFrame (new : Frame) : (s.addFrame new).HasMacro frame m :=
  h.of_get? (fun name _ => hs.get?_addFrame_old new h.frame_lt name) fun name _ =>
    hs.get?_addFrame_old new hs.root_lt name

theorem withMacroFrame (forms : List Value) : (s.withMacroFrame forms).HasMacro frame m := h.addFrame hs _

/-- In a new frame the names keep their meaning if it does not bind them. -/
theorem inner {bindings : Bindings} (hbindings : ∀ name ∈ m.around, bindings.find? name = none) :
    (s.addFrame ⟨some frame, bindings⟩).HasMacro s.frames.size m :=
  h.of_get? (fun name hname => hs.get?_addFrame_inner h.frame_lt (hbindings name hname))
    fun name _ => hs.get?_addFrame_old _ hs.root_lt name

/-- A call comes to what the body comes to, in a frame where the names have their meaning. -/
theorem comes_calling (forms : List Value) :
    (s.withMacroFrame forms).NoMacros s.frames.size m.used ∧
      (s.withMacroFrame forms).HasPrimitives s.frames.size m.primitives ∧
    ∀ o, Comes (calling m.function forms frame) s o ↔ Comes (fun n => evaluate n m.body s.frames.size)
      (s.withMacroFrame forms) o := by
  obtain ⟨-, hused, hprimitives⟩ := m.fresh "xs" List.mem_cons_self
  exact ⟨h.used.of_get? fun _ hname => hs.get?_withMacroFrame (ne_of_mem_of_not_mem hname hused) forms,
    h.primitives.of_get? fun p hp => hs.get?_withMacroFrame (hprimitives p hp) forms,
    comes_iff_of_eq (calling_climbs _ _ _) (evaluate_climbs _ _) (m := 0) (j := 1) (k := 1) fun _ _ => rfl⟩

end State.HasMacro

section Loaded

theorem State.get?_withPrelude {name : String} (hname : name ∉ preludeNames) (s : State) (id : FrameId) :
    s.withPrelude.get? id name = s.get? id name := by
  simp only [preludeNames, List.mem_cons, List.not_mem_nil, or_false, not_or] at hname
  obtain ⟨hnot, hload, hcond, hor⟩ := hname
  exact (get?_define_ne hor _ id).trans ((get?_define_ne hcond _ id).trans
    ((get?_define_ne hload _ id).trans (get?_define_ne hnot _ id)))

variable (arguments : List String) (files : Files) (input : String) (inputEnded : Bool) (clock : Nat)

theorem initial_hasMacro {m : PreludeMacro}
    (h : (State.initial arguments files input inputEnded clock).withPrelude.get? rootFrame m.name = some m.function) :
    (State.initial arguments files input inputEnded clock).withPrelude.HasMacro rootFrame m where
  bound := h
  made := (State.initial_noMacros arguments files input inputEnded clock m.made).of_get? fun _ hname =>
    State.get?_withPrelude (fun hbound => (m.fresh _ (List.mem_cons_of_mem _ hbound)).1 hname) _ _
  used := (State.initial_noMacros arguments files input inputEnded clock m.used).of_get? fun _ hname =>
    State.get?_withPrelude (fun hbound => (m.fresh _ (List.mem_cons_of_mem _ hbound)).2.1 hname) _ _
  primitives := (State.initial_hasPrimitives arguments files input inputEnded clock m.primitives).of_get? fun p hp =>
    State.get?_withPrelude (fun hbound => (m.fresh _ (List.mem_cons_of_mem _ hbound)).2.2 p hp rfl) _ _

/-- Once the prelude is loaded, its macros have their meaning. -/
theorem initial_hasCond : (State.initial arguments files input inputEnded clock).withPrelude.HasMacro rootFrame
    condMacro :=
  initial_hasMacro _ _ _ _ _ ((State.get?_define_ne (by decide) _ _).trans
    (State.get?_define_self (Nat.lt_succ_self 0)))

theorem initial_hasOr : (State.initial arguments files input inputEnded clock).withPrelude.HasMacro rootFrame orMacro :=
  initial_hasMacro _ _ _ _ _ (State.get?_define_self (Nat.lt_succ_self 0))

end Loaded

/-! ## Forms in the bodies -/

section Bodies

variable {s : State} {frame : FrameId} {forms : List Value} {primitives : List Primitive}
  (h : s.HasPrimitives frame primitives) (hxs : s.get? frame "xs" = some (.ofList forms))
include h hxs

theorem gives_countForm (hmem : .count ∈ primitives) : s.Gives frame countForm (.int forms.length) :=
  gives_primitive (by decide) (h .count hmem) (.cons (gives_symbol hxs) .nil) fun _ _ => rfl

theorem gives_firstForm (hmem : .first ∈ primitives) : s.Gives frame firstForm (forms.headD .nil) :=
  gives_primitive (by decide) (h .first hmem) (.cons (gives_symbol hxs) .nil) fun _ _ => rfl

theorem gives_restForm (hmem : .rest ∈ primitives) : s.Gives frame restForm (.ofList forms.tail) :=
  gives_primitive (by decide) (h .rest hmem) (.cons (gives_symbol hxs) .nil) fun _ _ => rfl

end Bodies

end SmallLisp
