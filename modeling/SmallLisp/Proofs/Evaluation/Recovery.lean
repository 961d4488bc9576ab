/-
Recovery. A guarded form undoes nothing: when its body has come to throw a value, the handler goes on from the state
that the body has led to, as the body of a binding would that gives the value its name. States are those whose frames
form a tree and whose closures stand inside of it, as in all that a session comes to (`Session.Visited.chained`). Main
statement: `guarded_iff_bound`.
-/
import SmallLisp.Proofs.Evaluation.Chains
import SmallLisp.Proofs.Evaluation.Quiet
import SmallLisp.Proofs.Session.Frames

namespace SmallLisp

open Run (Climbs Comes comes_bind_of_value comes_fault_iff comes_value_iff)
open Template (quoting)

/-! ## Two ways to bind a value -/

/-- Evaluates a form, and then throws a value. -/
def throwingAfter (form v : Value) : Value :=
  .ofList [.symbol "do", form, .ofList [.symbol "throw", quoting v]]

/-- Evaluates a form, and then throws a value to a handler that finds it under a name. -/
def catchingAfter (form : Value) (name : String) (v handler : Value) : Value :=
  guardedForm (throwingAfter form v) name handler .nil .nil

/-- Evaluates a form, and then another one in which a name is bound to a value. -/
def bindingAfter (form : Value) (name : String) (v body : Value) : Value :=
  .ofList [.symbol "do", form, .ofList [.symbol "let*", .ofList [.symbol name, quoting v], body]]

/-- Binding a name in the frame that was added last. -/
theorem State.define_addFrame (s : State) (outer : Option FrameId) (bindings : Bindings) (name : String) (v : Value) :
    (s.addFrame ⟨outer, bindings⟩).define s.frames.size name v = s.addFrame ⟨outer, bindings.bind name v⟩ := by
  have hframes : (s.frames.push ⟨outer, bindings⟩).modify s.frames.size
      (fun frame => { frame with bindings := frame.bindings.bind name v }) =
        s.frames.push ⟨outer, bindings.bind name v⟩ := by
    refine Array.ext (by simp) fun i hi _ => ?_
    rw [Array.getElem_modify, Array.getElem_push, Array.getElem_push]
    rw [Array.size_modify, Array.size_push] at hi
    by_cases hlast : i = s.frames.size
    · simp [hlast]
    · rw [if_neg (Ne.symm hlast), dif_pos (by omega), dif_pos (by omega)]
  simp only [define, addFrame, hframes]

section Forms

variable {s t : State} {frame : FrameId} {form v w : Value} {shown : String}

/-- The fault of the body, in the state that the form before it has led to. -/
theorem throwingAfter_comes (hdo : ∀ v, s.get? frame "do" = some v → v.isMacro = false)
    (hform : Comes (fun n => evaluate n form frame) s (.value w t))
    (hquote : ∀ v, t.get? frame "quote" = some v → v.isMacro = false)
    (hthrow : ∃ info, t.get? frame "throw" = some (.primitive .throw false info))
    (hshown : v.inspect t.cells = .ok shown) :
    Comes (fun n => evaluate n (throwingAfter form v) frame) s (.fault (.thrown v shown) t) :=
  (comes_inOrder hdo hform _ _).2
    (comes_primitive rfl hthrow (.cons (gives_quoting hquote v) .nil) (fun _ _ => throw_ok hshown frame) trivial)

/-- The body of a binding, in a new frame with the name. -/
theorem bindingAfter_comes (hdo : ∀ v, s.get? frame "do" = some v → v.isMacro = false)
    (hform : Comes (fun n => evaluate n form frame) s (.value w t)) (ht : t.IsTree) (hframe : frame < t.frames.size)
    (hlet : ∀ v, t.get? frame "let*" = some v → v.isMacro = false)
    (hquote : ∀ v, t.get? frame "quote" = some v → v.isMacro = false) (name : String)
    (v handler : Value) (o : Outcome Value) :
    Comes (fun n => evaluate n (bindingAfter form name v handler) frame) s o ↔
      Comes (fun n => evaluate n handler t.frames.size) (t.addFrame ⟨some frame, [(name, v)]⟩) o := by
  have hinner : ∀ v, (t.addFrame ⟨some frame, []⟩).get? t.frames.size "quote" = some v → v.isMacro = false := by
    rw [ht.get?_addFrame_inner hframe rfl]
    exact hquote
  have hbound : Comes (fun _ => Run.define t.frames.size name v) (t.addFrame ⟨some frame, []⟩)
      (.value () (t.addFrame ⟨some frame, [(name, v)]⟩)) :=
    comes_value_iff.2 ⟨0, congrArg (Outcome.value ()) (t.define_addFrame (some frame) [] name v)⟩
  have hbody : ∀ v, Climbs fun n => (do
      Run.define t.frames.size name v
      evaluate n handler t.frames.size : Run Value) := fun v => (Climbs.const _).bind fun _ => evaluate_climbs handler _
  refine (comes_inOrder hdo hform _ _).trans ((comes_letIn_single hlet name _ handler .nil o).trans ?_)
  refine (comes_bind_of_value (evaluate_climbs _ _) hbody (gives_quoting hinner v) o).trans ?_
  exact comes_bind_of_value (.const _) (fun _ => evaluate_climbs handler _) hbound o

/-! ## Main statement -/

/-- A guarded form whose body throws a value after another form, and a binding of a name to that value after this form,
come to the same ends in the same states. Both of them go on with the handler in the state that the form has led to,
nothing of which is undone, in a new frame that holds the name; a fault of the handler is not caught again. In the end
too, this frame is around none of those that there were before it. -/
theorem guarded_iff_bound (hs : s.Chained) (hbelow : form.FramesBelow s.frames.size) (hframe : frame < s.frames.size)
    (hbefore : s.NoMacros frame ["do", "try*"]) (hform : Comes (fun n => evaluate n form frame) s (.value w t))
    (hafter : t.NoMacros frame ["let*", "quote"])
    (hthrow : ∃ info, t.get? frame "throw" = some (.primitive .throw false info))
    (hshown : v.inspect t.cells = .ok shown) (name : String) (handler : Value) :
    (∀ o, Comes (fun n => evaluate n (catchingAfter form name v handler) frame) s o ↔
      Comes (fun n => evaluate n (bindingAfter form name v handler) frame) s o) ∧
    (∀ o, Comes (fun n => evaluate n (catchingAfter form name v handler) frame) s o ↔
      Comes (fun n => evaluate n handler t.frames.size) (t.addFrame ⟨some frame, [(name, v)]⟩) o) ∧
    ∀ o, Comes (fun n => evaluate n (catchingAfter form name v handler) frame) s o →
      ∀ id < t.frames.size, o.state.chain id = t.chain id ∧ t.frames.size ∉ o.state.chain id := by
  obtain ⟨hchained, hgrows, -⟩ := hs.comes hbelow hframe hform
  have ht := hchained.isTree
  have hinside : frame < t.frames.size := Nat.lt_of_lt_of_le hframe hgrows.size_le
  have hdo := hbefore "do" (by simp)
  have hquote := hafter "quote" (by simp)
  have hthrown := throwingAfter_comes hdo hform hquote hthrow hshown
  have hplain : macroCall? s frame (catchingAfter form name v handler) = none :=
    macroCall?_symbol (hbefore "try*" (by simp)) _ _
  have hhandled := guarded_comes hplain (comes_fault_iff.1 hthrown)
  have hlet := hafter "let*" (by simp)
  have hbound := bindingAfter_comes hdo hform ht hinside hlet hquote name v handler
  refine ⟨fun o => (hhandled o).trans (hbound o).symm, hhandled, fun o ho id hid => ?_⟩
  have hsame : o.state.chain id = t.chain id := by
    obtain ⟨n, hn, -⟩ := (hhandled o).1 ho
    have hstart : t.GrowsTo (t.addFrame ⟨some frame, [(name, v)]⟩) := .addFrame t frame [(name, v)]
    rw [← hn]
    exact ht.chain_growsTo (hstart.trans (evaluate_growsTo n handler t.frames.size _)) hid
  rw [hsame]
  exact ⟨rfl, fun hmem => Nat.not_le.2 hid (ht.le_of_mem_chain hmem)⟩

end Forms

/-- A binding in the root frame before the throw, and a handler that shows it next to what was thrown. -/
theorem guarded_iff_bound_afterDefine :
    let s := State.initial [] (.tree []) "" true 0
    let form : Value := .ofList [.symbol "def!", .symbol "y", .bool true]
    let handler : Value := .ofVector [.symbol "x", .symbol "y"]
    form.FramesBelow s.frames.size ∧ ∃ n u,
      evaluate n (catchingAfter form "x" .nil handler) rootFrame s = .value (.ofVector [.nil, .bool true]) u ∧
      (∃ m, evaluate m (bindingAfter form "x" .nil handler) rootFrame s = .value (.ofVector [.nil, .bool true]) u) ∧
      1 ∉ u.chain rootFrame := by
  intro s form handler
  have hs : s.Chained := (Session.Visited.initial [] (.tree []) "" true 0).chained
  have hbelow : form.FramesBelow s.frames.size := by
    refine Value.framesBelow_ofList ?_
    simp only [List.forall_mem_cons]
    exact ⟨Likeness.Alike.framesBelow (.symbol "def!"), Likeness.Alike.framesBelow (.symbol "y"),
      Likeness.Alike.framesBelow (.bool true), nofun⟩
  have hform : Comes (fun n => evaluate n form rootFrame) s
      (.value (.bool true) (s.define rootFrame "y" (.bool true))) := comes_value_iff.2 ⟨2, rfl⟩
  have hbefore : s.NoMacros rootFrame ["do", "try*"] := by
    simp only [State.NoMacros, List.forall_mem_cons]
    exact ⟨nofun, nofun, nofun⟩
  have hafter : (s.define rootFrame "y" (.bool true)).NoMacros rootFrame ["let*", "quote"] := by
    simp only [State.NoMacros, List.forall_mem_cons]
    exact ⟨nofun, nofun, nofun⟩
  have hshown : Value.nil.inspect (s.define rootFrame "y" (.bool true)).cells = .ok "nil" := rfl
  obtain ⟨hbound, hhandled, hchains⟩ :=
    guarded_iff_bound hs hbelow hs.isTree.root_lt hbefore hform hafter ⟨.nil, rfl⟩ hshown "x" handler
  have hcomes := (hhandled (.value (.ofVector [.nil, .bool true]) _)).2 (comes_value_iff.2 ⟨2, rfl⟩)
  obtain ⟨n, hn⟩ := comes_value_iff.1 hcomes
  exact ⟨hbelow, n, _, hn, comes_value_iff.1 ((hbound _).1 hcomes), (hchains _ hcomes rootFrame (by decide)).2⟩

end SmallLisp
