/-
All ways of calling agree. A function that heads a list of quoted arguments, a function that is called
by a primitive or for a macro, and a function that the primitive `apply` is given come to the same ends
from the same state, whichever frames they are called from (`calls_agree`). Primitives are given the frame
of the call, and pass it on where they call a function in turn, but none of them uses it.
-/
import SmallLisp.Proofs.Evaluation.Template

namespace SmallLisp

open Run (Climbs Comes comes_congr)
open Template (quoting)

/-! ## Calls with steps enough -/

/-- Families of runs that lie between each other's members come to the same ends. -/
theorem Run.comes_of_interleaved {α : Type} {x y : Nat → Run α} (hxy : ∀ n, (x n).Below (y n))
    (hyx : ∀ n, (y n).Below (x (n + 1))) {s : State} (o : Outcome α) : Comes x s o ↔ Comes y s o := by
  constructor
  · rintro ⟨n, rfl, hend⟩
    exact ⟨n, ((hxy n).eq_of_ended hend).symm, hend⟩
  · rintro ⟨n, rfl, hend⟩
    exact ⟨n + 1, ((hyx n).eq_of_ended hend).symm, hend⟩

/-- The call of a function from a frame, for each number of steps. -/
def calling (f : Value) (args : List Value) (caller : FrameId) (n : Nat) : Run Value :=
  callFunction (evaluate n) n f args caller

/-- How many more steps a call has than the evaluations in it does not matter. -/
theorem comes_callFunction_succ (f : Value) (args : List Value) (caller : FrameId) {s : State} (o : Outcome Value) :
    Comes (fun n => callFunction (evaluate n) (n + 1) f args caller) s o ↔ Comes (calling f args caller) s o :=
  (Run.comes_of_interleaved (fun n => callFunction_below (Nat.le_refl n) (Nat.le_succ n) f args caller)
    (fun n => callFunction_below (Nat.le_succ n) (Nat.le_refl (n + 1)) f args caller) o).symm

/-! ## The frame of the call -/

/-- No primitive looks at the frame that it is given, so one that calls nothing comes to the same from any frame, and
one that calls a function does if the function does. -/
theorem primitive_run_caller (eval : Evaluator) {call : Caller}
    (hc : ∀ f args caller caller', call f args caller = call f args caller') (p : Primitive) (args : List Value)
    (caller caller' : FrameId) : p.run eval call caller args = p.run eval call caller' args := by
  cases p with
  | apply =>
    refine bind_congr fun (function, second, others) => bind_congr fun last => ?_
    exact hc function _ caller caller'
  | map =>
    refine bind_congr fun (function, row) => bind_congr fun items => ?_
    have hitem : (fun item => call function [item] caller) = fun item => call function [item] caller' :=
      funext fun item => hc function [item] caller caller'
    rw [hitem]
  | swap =>
    refine bind_congr fun (cell, function, extra) => bind_congr fun id => bind_congr fun content => ?_
    rw [hc function _ caller caller']
  | _ => rfl

/-- A call comes to the same from any frame. -/
theorem callFunction_caller (eval : Evaluator) : ∀ (steps : Nat) (f : Value) (args : List Value)
    (caller caller' : FrameId), callFunction eval steps f args caller = callFunction eval steps f args caller'
  | 0, _, _, _, _ => rfl
  | steps + 1, f, args, caller, caller' => by
    cases f with
    | primitive p => exact primitive_run_caller eval (callFunction_caller eval steps) p args caller caller'
    | _ => rfl

theorem calling_caller (f : Value) (args : List Value) (caller caller' : FrameId) :
    calling f args caller = calling f args caller' :=
  funext fun n => callFunction_caller (evaluate n) n f args caller caller'

/-! ## Lists that are headed by a function -/

/-- A function stands for itself. -/
theorem evaluate_function {f : Value} (hf : f.isFunction = true) (steps : Nat) (frame : FrameId) :
    evaluate (steps + 1) f frame = (pure f : Run Value) := by
  rw [evaluate_eq_formValue]
  cases f with
  | closure | primitive => rfl
  | _ => simp [Value.isFunction] at hf

/-- Only the name of a macro is expanded, and no function is the name of a special form. -/
theorem macroCall?_function {f : Value} (hf : f.isFunction = true) (s : State) (frame : FrameId) (parts : List Value)
    (info : Value) : macroCall? s frame (.list (f :: parts) info) = none ∧ SpecialForm.ofHead? f = none := by
  cases f with
  | closure | primitive => exact ⟨rfl, rfl⟩
  | _ => simp [Value.isFunction] at hf

/-- Quoted arguments have the values that are quoted, and evaluating them changes nothing. -/
theorem evalEach_quoting {s : State} {frame : FrameId}
    (hquote : ∀ v, s.get? frame "quote" = some v → v.isMacro = false) (steps : Nat) (args : List Value) :
    evalEach (evaluate (steps + 1)) frame (args.map quoting) s = .value args s := by
  induction args with
  | nil => rfl
  | cons arg args ih =>
    rw [List.map_cons]
    exact evalEach_cons_value.2 ⟨arg, args, s, evaluate_quoting hquote steps arg, ih, rfl⟩

/-- A list that is headed by a function calls the function from the frame that the list is evaluated in. -/
theorem comes_evaluate_calling {f : Value} (hf : f.isFunction = true) (args : List Value) {s : State} {frame : FrameId}
    (hquote : ∀ v, s.get? frame "quote" = some v → v.isMacro = false) (info : Value) (o : Outcome Value) :
    Comes (fun n => evaluate n (.list (f :: args.map quoting) info) frame) s o ↔ Comes (calling f args frame) s o := by
  rw [← comes_callFunction_succ]
  refine comes_congr (evaluate_climbs _ _) (fun _ _ hmn => callFunction_below hmn (Nat.succ_le_succ hmn) f args frame)
    ⟨2, 1, fun n => ?_⟩ o
  obtain ⟨hcalled, hspecial⟩ := macroCall?_function hf s frame (args.map quoting) info
  have hhead : evaluate (n + 1) f frame s = .value f s := by
    rw [evaluate_function hf]
    rfl
  rw [evaluate_of_macroCall? hcalled, hspecial]
  refine (callValue_apply hhead _).trans ?_
  exact Run.bind_of_value (evalEach_quoting hquote n args)

/-! ## The primitive `apply` -/

/-- Whether a value is a list or a vector of certain items, or nil where there are none. -/
def Value.IsRow (v : Value) (items : List Value) : Prop := v.items? = some items ∨ v = .nil ∧ items = []

theorem sequence_of_isRow {v : Value} {items : List Value} (h : v.IsRow items) (name : String) :
    Run.sequence name v = pure items := by
  rcases h with h | ⟨rfl, rfl⟩
  · cases v with
    | list | vector =>
      cases h
      rfl
    | _ => cases h
  · rfl

/-- The arguments that are given one by one go before those in the last sequence. -/
theorem apply_of_isRow (call : Caller) (caller : FrameId) (f : Value) (leading : List Value) {last : Value}
    {rest : List Value} (h : last.IsRow rest) :
    Calls.apply call caller (f :: (leading ++ [last])) = call f (leading ++ rest) caller := by
  obtain ⟨second, others, hgiven⟩ := List.exists_cons_of_ne_nil (l := leading ++ [last]) (by simp)
  have htwo : Run.twoOrMore "apply" (f :: (leading ++ [last])) = pure (f, second, others) := by
    rw [hgiven]
    rfl
  rw [Calls.apply, htwo, pure_bind]
  dsimp only
  rw [← hgiven, List.getLastD_concat, List.dropLast_concat, sequence_of_isRow h, pure_bind]

/-- Calling through `apply` takes one step more than calling at once. -/
theorem comes_calling_apply (f : Value) (leading : List Value) {last : Value} {rest : List Value}
    (h : last.IsRow rest) (isMacro : Bool) (info : Value) (caller : FrameId) {s : State} (o : Outcome Value) :
    Comes (calling (.primitive .apply isMacro info) (f :: (leading ++ [last])) caller) s o ↔
      Comes (calling f (leading ++ rest) caller) s o := by
  have hcall : ∀ m n, callFunction (evaluate m) (n + 1) (.primitive .apply isMacro info) (f :: (leading ++ [last]))
      caller = callFunction (evaluate m) n f (leading ++ rest) caller := fun m n =>
    apply_of_isRow (callFunction (evaluate m) n) caller f leading h
  rw [← comes_callFunction_succ]
  simp only [hcall]
  rfl

/-! ## All ways of calling -/

/-- The ways of calling a function agree, in every state and for every outcome. For a closure or a
primitive, whether it counts as a macro or not, it comes to the same to evaluate the list of the function
and its quoted arguments in a frame where `quote` is no macro, to call the function with the arguments from
any frame, and to call `apply` from any frame, or to evaluate a call of `apply`, with the function, any first
part of the arguments, and the others in a list or a vector, or nil if there are none. -/
theorem calls_agree {f : Value} (hf : f.isFunction = true) (args : List Value) (s : State) (frame caller : FrameId)
    (hquote : ∀ v, s.get? frame "quote" = some v → v.isMacro = false) (info : Value) (o : Outcome Value) :
    (Comes (fun n => evaluate n (.list (f :: args.map quoting) info) frame) s o ↔ Comes (calling f args caller) s o) ∧
    ∀ (leading rest : List Value) (last : Value), args = leading ++ rest → last.IsRow rest →
      ∀ (isMacro : Bool) (applyInfo : Value) (other : FrameId),
        (Comes (calling (.primitive .apply isMacro applyInfo) (f :: (leading ++ [last])) other) s o ↔
          Comes (calling f args caller) s o) ∧
        ∀ otherInfo : Value, (∀ v, s.get? other "quote" = some v → v.isMacro = false) →
          (Comes (fun n => evaluate n (.list (.primitive .apply isMacro applyInfo ::
            (f :: (leading ++ [last])).map quoting) otherInfo) other) s o ↔ Comes (calling f args caller) s o) := by
  have hlist := comes_evaluate_calling hf args hquote info o
  rw [calling_caller f args frame caller] at hlist
  refine ⟨hlist, ?_⟩
  rintro leading rest last rfl hlast isMacro applyInfo other
  have happly := comes_calling_apply f leading hlast isMacro applyInfo other (s := s) o
  rw [calling_caller f (leading ++ rest) other caller] at happly
  exact ⟨happly, fun otherInfo hother => (comes_evaluate_calling rfl _ hother otherInfo o).trans happly⟩

/-- A macro with a parameter for the other arguments, which adds them all up by way of `apply`. -/
def totalling : Value :=
  .closure ⟨["a"], some "more", by decide⟩
    [.ofList [.symbol "apply", .symbol "+", .symbol "a", .symbol "more"]] rootFrame true .nil

theorem calls_agree_totalling :
    let s := State.initial [] (.tree []) "" true 0
    let t := s.addFrame ⟨some rootFrame, [("a", .int 1), ("more", .ofList [.int 2, .int 3])]⟩
    totalling.isFunction = true ∧ (∀ v, s.get? rootFrame "quote" = some v → v.isMacro = false) ∧
    Comes (calling totalling [.int 1, .int 2, .int 3] 1) s (.value (.int 6) t) ∧
    Comes (fun n => evaluate n (.list (totalling :: [Value.int 1, .int 2, .int 3].map quoting) .nil) rootFrame) s
      (.value (.int 6) t) ∧
    Comes (calling (.primitive .apply false .nil) [totalling, .int 1, .ofVector [.int 2, .int 3]] 0) s
      (.value (.int 6) t) := by
  intro s t
  have hquote : ∀ v, s.get? rootFrame "quote" = some v → v.isMacro = false :=
    (State.initial_hasBuilders [] (.tree []) "" true 0).quote
  have hcall : Comes (calling totalling [.int 1, .int 2, .int 3] 1) s (.value (.int 6) t) := ⟨4, rfl, trivial⟩
  obtain ⟨hlist, happly⟩ := calls_agree (f := totalling) rfl [.int 1, .int 2, .int 3] s rootFrame 1 hquote .nil
    (.value (.int 6) t)
  have hrow := happly [.int 1] [.int 2, .int 3] (.ofVector [.int 2, .int 3]) rfl (.inl rfl) false .nil 0
  exact ⟨rfl, hquote, hcall, hlist.2 hcall, hrow.1.2 hcall⟩

end SmallLisp
