/-
The macro `cond`. It takes one clause at a time: a call becomes a choice between the value of the first clause
and a call for the clauses after it. Main statement: wherever the names keep their meaning, `cond` evaluates
tests from the left until one is truthy, and then the value that belongs to it (`cond_evaluates`).
-/
import SmallLisp.Proofs.Prelude.Macros

namespace SmallLisp

open Run (Climbs Comes comes_bind_congr comes_iff_of_eq comes_value_iff comes_fault_iff)
open Template (quoting)

/-! ## What the clauses stand for -/

/-- The fault of a test without a value, with the text of the value that is thrown. -/
def oddFault : Fault := .thrown (.str oddForms) ("'" ++ oddForms ++ "'")

/-- Evaluates tests from the left up to the first that is truthy, and then the value behind it. Each clause
that is looked at leaves a frame behind, of the call of the macro, in which nothing is evaluated. -/
def evalClauses (eval : Evaluator) (frame : FrameId) : List Value → Run Value
  | [] => do
    let _ ← Run.newFrame (some rootFrame) [("xs", .ofList [])]
    return .nil
  | [odd] => do
    let _ ← Run.newFrame (some rootFrame) [("xs", .ofList [odd])]
    Run.fail oddFault
  | test :: value :: clauses => do
    let _ ← Run.newFrame (some rootFrame) [("xs", .ofList (test :: value :: clauses))]
    if (← eval test frame).isTruthy then eval value frame else evalClauses eval frame clauses

/-- The names keep their meaning as long as no test is truthy. -/
def State.KeepsCond (s : State) (frame : FrameId) : List Value → Prop
  | test :: value :: clauses => s.HasMacro frame condMacro ∧ ∀ v t, v.isTruthy = false →
    Comes (fun n => evaluate n test frame) (s.withMacroFrame (test :: value :: clauses)) (.value v t) →
    t.KeepsCond frame clauses
  | _ => s.HasMacro frame condMacro

/-! ## The body -/

/-- What the body of `cond` comes to, given the clauses. -/
def condOutcome : List Value → State → Outcome Value
  | [], s => .value .nil s
  | [_], s => .fault oddFault s
  | test :: value :: clauses, s =>
    .value (.ofList [.symbol "if", test, value, .ofList (.symbol "cond" :: clauses)]) s

section Body

variable {s : State} {frame : FrameId} {forms : List Value} (h : s.HasPrimitives frame condMacro.primitives)
  (hnames : s.NoMacros frame ["if", "quote"]) (hxs : s.get? frame "xs" = some (.ofList forms))
include h hxs

/-- Whether there are more than so many forms. -/
theorem gives_moreThan (k : Int) : s.Gives frame (.ofList [.symbol ">", countForm, .int k])
    (.bool (k < forms.length)) := by
  refine gives_primitive (by decide) (h (.compare .greater) (by decide))
    (.cons (gives_countForm h hxs (by decide)) (.cons (gives_int k) .nil)) fun _ _ => ?_
  have hgreater : (compare (forms.length : Int) k).isGT = decide (k < forms.length) :=
    Bool.eq_iff_iff.2 (by rw [Ordering.isGT_iff_eq_gt, Int.compare_eq_gt, decide_eq_true_iff])
  rw [← hgreater, ← Bool.and_true (compare (forms.length : Int) k).isGT]
  rfl

theorem gives_second {first second : Value} {later : List Value} (hforms : forms = first :: second :: later) :
    s.Gives frame (.ofList [.symbol "nth", .symbol "xs", .int 1]) second := by
  subst hforms
  exact gives_primitive (by decide) (h .nth (by decide)) (.cons (gives_symbol hxs) (.cons (gives_int 1) .nil))
    fun _ _ => rfl

theorem gives_laterForm (hquote : ∀ v, s.get? frame "quote" = some v → v.isMacro = false) :
    s.Gives frame laterForm (.ofList (.symbol "cond" :: forms.tail.tail)) := by
  have hrest : s.Gives frame (.ofList [.symbol "rest", restForm]) (.ofList forms.tail.tail) :=
    gives_primitive (by decide) (h .rest (by decide)) (.cons (gives_restForm h hxs (by decide)) .nil) fun _ _ => rfl
  exact gives_primitive (by decide) (h .cons (by decide)) (.cons (gives_quoting hquote _) (.cons hrest .nil))
    fun _ _ => rfl

include hnames

/-- The value of the first clause is looked for before the clauses after it. -/
theorem comes_condBody : Comes (fun n => evaluate n condBody frame) s (condOutcome forms s) := by
  have hif := hnames "if" (by decide)
  have hquote := hnames "quote" (by decide)
  have hmore := gives_moreThan h hxs
  have hhead : List.Forall₂ (s.Gives frame) [quoting (.symbol "if"), firstForm] [.symbol "if", forms.headD .nil] :=
    .cons (gives_quoting hquote _) (.cons (gives_firstForm h hxs (by decide)) .nil)
  have hlater := gives_laterForm h hxs hquote
  rw [condBody, Value.ofList]
  rcases forms with _ | ⟨test, _ | ⟨value, clauses⟩⟩
  · refine (comes_conditional_of_gives hif (by simp) .nil (hmore 0) _).2 ?_
    exact comes_value_iff.2 ⟨0, rfl⟩
  · have hodd : Comes (fun n => evaluate n secondForm frame) s (.fault oddFault s) := by
      refine (comes_conditional_of_gives hif (by simp) .nil (hmore 1) _).2 ?_
      exact comes_primitive (by decide) (h .throw (by decide)) (.cons (gives_str _) .nil) (fun _ _ => rfl) trivial
    refine (comes_conditional_of_gives hif (by simp) .nil (hmore 0) _).2 ?_
    exact comes_call_fault (by decide) (h .list (by decide)) hhead hodd
  · have hvalue : s.Gives frame secondForm value := by
      refine (comes_conditional_of_gives hif (by simp) .nil (hmore 1) _).2 ?_
      have hlength : decide ((1 : Int) < (test :: value :: clauses).length) = true :=
        decide_eq_true (by simp only [List.length_cons]; omega)
      rw [hlength]
      exact gives_second h hxs rfl
    refine (comes_conditional_of_gives hif (by simp) .nil (hmore 0) _).2 ?_
    have hlength : decide ((0 : Int) < (test :: value :: clauses).length) = true :=
      decide_eq_true (by simp only [List.length_cons]; omega)
    rw [hlength]
    exact gives_primitive (by decide) (h .list (by decide)) (List.rel_append hhead (.cons hvalue (.cons hlater .nil)))
      fun _ _ => rfl

end Body

/-! ## Calls -/

section Calls

variable {s : State} {frame : FrameId}

/-- What the macro makes of clauses, in the state that its call leaves behind. -/
theorem comes_condMacro (h : s.HasMacro frame condMacro) (hs : s.IsTree) (clauses : List Value) :
    Comes (calling condMacro.function clauses frame) s (condOutcome clauses (s.withMacroFrame clauses)) := by
  obtain ⟨hused, hprimitives, hcalling⟩ := h.comes_calling hs clauses
  exact (hcalling _).2 (comes_condBody hprimitives hused (s.get?_withMacroFrame_xs clauses))

/-- What comes after a test. -/
def evalClause (eval : Evaluator) (frame : FrameId) (value : Value) (clauses : List Value) (v : Value) : Run Value :=
  if v.isTruthy then eval value frame else evalClauses eval frame clauses

mutual

theorem evalClauses_climbs (frame : FrameId) : ∀ clauses : List Value,
    Climbs fun n => evalClauses (evaluate n) frame clauses
  | [] | [_] => .const _
  | test :: value :: clauses =>
    .bind (.const _) fun _ => (evaluate_climbs test frame).bind (evalClause_climbs frame value clauses)

theorem evalClause_climbs (frame : FrameId) (value : Value) (clauses : List Value) (v : Value) :
    Climbs fun n => evalClause (evaluate n) frame value clauses v :=
  .ite (evaluate_climbs value frame) (evalClauses_climbs frame clauses) v.isTruthy

end

/-- Where the names keep their meaning, a call of `cond` comes to what its clauses stand for. The tests are
evaluated from the left, in the frame of the call, up to the first that is truthy; then the value behind it is,
and nothing else. Without a truthy test all comes to nil, unless the last test has no value: then that test is
not evaluated, and a text that says so is thrown. It does not matter what the frame of the call binds. -/
theorem cond_evaluates (frame : FrameId) : ∀ (clauses : List Value) (s : State), s.Chained →
    (∀ form ∈ clauses, form.FramesBelow s.frames.size) → s.KeepsCond frame clauses →
    ∀ info o, Comes (fun n => evaluate n (.list (.symbol "cond" :: clauses) info) frame) s o ↔
      Comes (fun n => evalClauses (evaluate n) frame clauses) s o
  | [], s, hs, _, h, info, o => by
    refine (comes_evaluate_of_calling (h.macroCall? _ info) (comes_condMacro h hs.isTree []) o).trans ?_
    exact comes_iff_of_eq (evaluate_climbs _ _) (evalClauses_climbs frame []) (m := 0) (j := 1) (k := 0)
      (fun _ _ => rfl) o
  | [odd], s, hs, _, h, info, o =>
    (comes_evaluate_of_calling_fault (h.macroCall? _ info) (comes_condMacro h hs.isTree [odd]) o).trans
      ((evalClauses_climbs frame [odd]).comes_iff (comes_fault_iff.2 ⟨0, rfl⟩)).symm
  | test :: value :: clauses, s, hs, hforms, ⟨hcond, hlater⟩, info, o => by
    obtain ⟨htest, hrest⟩ := List.forall_mem_cons.1 hforms
    obtain ⟨-, hclauses⟩ := List.forall_mem_cons.1 hrest
    -- the choice is evaluated after the call of the macro, which has added a frame
    have hcalled : (s.withMacroFrame (test :: value :: clauses)).Chained := hs.withMacroFrame hforms
    have hsize : s.frames.size ≤ (s.withMacroFrame (test :: value :: clauses)).frames.size :=
      s.size_withMacroFrame _ ▸ Nat.le_succ _
    have hif := (hcond.withMacroFrame hs.isTree (test :: value :: clauses)).made "if" (by decide)
    refine (comes_evaluate_of_calling (hcond.macroCall? _ info) (comes_condMacro hcond hs.isTree _) o).trans ?_
    refine (comes_conditional hif (by simp) _ o).trans (.trans ?_ (comes_iff_of_eq ((evaluate_climbs test frame).bind
      (evalClause_climbs frame value clauses)) (evalClauses_climbs frame _) (m := 0) (j := 0) (k := 0)
        (fun _ _ => rfl) o))
    refine comes_bind_congr (evaluate_climbs test frame) (evaluate_climbs test frame) (chosen_climbs _ _)
      (evalClause_climbs frame value clauses) (fun _ => .rfl) (fun v t hv o => ?_) o
    unfold chosen evalClause
    cases htruthy : v.isTruthy with
    | true => exact .rfl
    | false =>
      obtain ⟨ht, hgrown, -⟩ := hcalled.comes (htest.mono hsize) (Nat.lt_of_lt_of_le hcond.frame_lt hsize) hv
      exact cond_evaluates frame clauses t ht (fun form hform =>
        (hclauses form hform).mono (Nat.le_trans hsize hgrown.size_le))
        (hlater v t htruthy hv) .nil o

/-- Bindings of names that the body of `cond` calls. -/
def rebindings : Bindings := [("count", .int 0), ("list", .nil), ("first", .primitive .rest false .nil)]

/-- The clauses of `(cond false 1 true 2)`. -/
def twoClauses : List Value := [.bool false, .int 1, .bool true, .int 2]

theorem cond_evaluates_rebound :
    let s := afterPrelude.addFrame ⟨some rootFrame, rebindings⟩
    s.Chained ∧ (∀ form ∈ twoClauses, form.FramesBelow s.frames.size) ∧ s.KeepsCond 1 twoClauses ∧
    Comes (fun n => evaluate n (.ofList (.symbol "cond" :: twoClauses)) 1) s
      (.value (.int 2) ((s.withMacroFrame twoClauses).withMacroFrame (twoClauses.drop 2))) := by
  intro s
  have hs : s.Chained := by
    refine afterPrelude_chained.addFrame afterPrelude_chained.isTree.root_lt ?_
    simp only [rebindings, Bindings.Each, List.forall_mem_cons]
    exact ⟨Likeness.Alike.framesBelow (.int 0), Likeness.Alike.framesBelow .nil,
      Likeness.Alike.framesBelow (.primitive false trivial fun _ => .nil), nofun⟩
  have hforms : ∀ form ∈ twoClauses, form.FramesBelow s.frames.size := by
    simp only [twoClauses, List.forall_mem_cons]
    exact ⟨Likeness.Alike.framesBelow (.bool false), Likeness.Alike.framesBelow (.int 1),
      Likeness.Alike.framesBelow (.bool true), Likeness.Alike.framesBelow (.int 2), nofun⟩
  have hcond : s.HasMacro 1 condMacro :=
    (initial_hasCond [] (.tree []) "" true 0).inner afterPrelude_chained.isTree (by decide)
  have hkeeps : s.KeepsCond 1 twoClauses := by
    refine ⟨hcond, fun v t _ ht => ?_⟩
    -- the first test changes nothing, the second one is truthy
    obtain ⟨rfl, rfl⟩ := Outcome.value.inj ((evaluate_climbs _ _).unique (comes_value_iff.2 ⟨1, rfl⟩) ht)
    refine ⟨hcond.withMacroFrame hs.isTree _, fun w u hw hu => ?_⟩
    obtain ⟨rfl, rfl⟩ := Outcome.value.inj ((evaluate_climbs _ _).unique (comes_value_iff.2 ⟨1, rfl⟩) hu)
    cases hw
  exact ⟨hs, hforms, hkeeps, (cond_evaluates 1 twoClauses s hs hforms hkeeps .nil _).2 (comes_value_iff.2 ⟨1, rfl⟩)⟩

/-- A macro that takes one form and makes it its expansion. -/
def identityMacro : Value := .closure ⟨["x"], none, by decide⟩ [.symbol "x"] rootFrame true .nil

/-- If `quote` is a macro in the root frame, the names that `cond` makes use of are not quoted: although everything
else has its meaning, and the only test is truthy, the call fails. -/
theorem cond_quoteMacro :
    let s := afterPrelude.define rootFrame "quote" identityMacro
    s.Chained ∧ s.get? rootFrame "cond" = some condMacro.function ∧ s.NoMacros rootFrame ["if"] ∧
      s.HasPrimitives rootFrame condMacro.primitives ∧ s.Gives rootFrame (.bool true) (.bool true) ∧
      s.Gives rootFrame (.int 2) (.int 2) ∧ ∃ t, ∀ o,
        Comes (fun n => evaluate n (.ofList [.symbol "cond", .bool true, .int 2]) rootFrame) s o ↔
          o = .fault (.unbound "if") t := by
  intro s
  have hcond := initial_hasCond [] (.tree []) "" true 0
  have hsame : ∀ name ≠ "quote", s.get? rootFrame name = afterPrelude.get? rootFrame name :=
    fun _ hname => State.get?_define_ne hname _ _
  have hmacro : identityMacro.FramesBelow afterPrelude.frames.size := Likeness.Alike.framesBelow
    (.closure _ true (.cons (.symbol "x") .nil) afterPrelude_chained.isTree.root_lt fun _ => .nil)
  have hs : s.Chained := afterPrelude_chained.define hmacro rootFrame "quote"
  obtain ⟨t, ht⟩ : ∃ t, evaluate 12 (.ofList [.symbol "cond", .bool true, .int 2]) rootFrame s =
    .fault (.unbound "if") t := ⟨_, rfl⟩
  have hmade : ∀ name ∈ condMacro.made, name ≠ "quote" := by decide
  have hprimitives : ∀ p ∈ condMacro.primitives, p.name ≠ "quote" := by decide
  exact ⟨hs, (hsame "cond" (by decide)).trans hcond.bound, hcond.made.of_get? fun name hname =>
    hsame _ (hmade name hname),
    hcond.primitives.of_get? fun p hp => hsame _ (hprimitives p hp), gives_bool true, gives_int 2, t,
    fun o => (evaluate_climbs _ _).comes_iff (comes_fault_iff.2 ⟨12, ht⟩)⟩

end Calls

end SmallLisp
