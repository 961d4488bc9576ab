/-
Runs that only look at the state. Such a run ends, and it leaves the state as it is, whether it comes to a value
or to a fault.
-/
import SmallLisp.Parameters

namespace SmallLisp.Run

variable {α β : Type}

/-- The run ends, and leaves the state as it is. -/
def Looks (x : Run α) : Prop := ∀ s, (∃ a, x s = .value a s) ∨ ∃ f, x s = .fault f s

/-- The run ends with a fault, and leaves the state as it is. -/
def Refuses (x : Run α) : Prop := ∀ s, ∃ f, x s = .fault f s

/-- A value that has a text can be shown. -/
theorem inspected_of_text {v : Value} {text : String} {s : State} (h : v.inspect s.cells = .ok text) :
    Run.inspected v s = .value text s := by
  simp only [Run.inspected, Run.ask, h]

theorem failInspecting_of_text {v : Value} {text : String} {s : State} (h : v.inspect s.cells = .ok text)
    (cause : String → KindFault) : (Run.failInspecting v cause : Run α) s = .fault (.kind (cause text)) s := by
  rw [Run.failInspecting, bind_apply, inspected_of_text h]
  rfl

/-- A fault that is to show a value gives way to the one that keeps the value from being shown. -/
theorem failInspecting_of_error {v : Value} {fault : Fault} {s : State} (h : v.inspect s.cells = .error fault)
    (cause : String → KindFault) : (Run.failInspecting v cause : Run α) s = .fault fault s := by
  have hinspected : Run.inspected v s = .fault fault s := by simp only [Run.inspected, Run.ask, h]
  rw [Run.failInspecting, bind_apply, hinspected]

namespace Looks

theorem pure (a : α) : Looks (Pure.pure a : Run α) := fun _ => .inl ⟨a, rfl⟩

theorem ask (f : State → Except Fault α) : Looks (Run.ask f) := by
  intro s
  unfold Run.ask
  split
  · exact .inl ⟨_, rfl⟩
  · exact .inr ⟨_, rfl⟩

theorem bind {x : Run α} {f : α → Run β} (h : x.Looks) (hf : ∀ a, (f a).Looks) : (x >>= f).Looks := by
  intro s
  rw [bind_apply]
  rcases h s with ⟨a, ha⟩ | ⟨fault, hfault⟩
  · rw [ha]
    exact hf a s
  · rw [hfault]
    exact .inr ⟨fault, rfl⟩

theorem mapM {f : α → Run β} (hf : ∀ a, (f a).Looks) : ∀ as : List α, (as.mapM f).Looks
  | [] => pure _
  | a :: as => by
    rw [List.mapM_cons]
    exact bind (hf a) fun b => bind (mapM hf as) fun bs => pure _

theorem inspected (v : Value) : (Run.inspected v).Looks := ask _

theorem parameterLabel (form : Value) : (SmallLisp.parameterLabel form).Looks := by
  unfold SmallLisp.parameterLabel
  split
  · exact pure _
  · exact pure _
  · exact pure _
  · exact inspected _

end Looks

namespace Refuses

theorem fail (f : Fault) : Refuses (Run.fail f : Run α) := fun _ => ⟨f, rfl⟩

theorem bind {x : Run α} {f : α → Run β} (h : x.Looks) (hf : ∀ a, (f a).Refuses) : (x >>= f).Refuses := by
  intro s
  rw [bind_apply]
  rcases h s with ⟨a, ha⟩ | ⟨fault, hfault⟩
  · rw [ha]
    exact hf a s
  · rw [hfault]
    exact ⟨fault, rfl⟩

theorem bind_left {x : Run α} (h : x.Refuses) (f : α → Run β) : (x >>= f).Refuses := by
  intro s
  obtain ⟨fault, hfault⟩ := h s
  exact ⟨fault, by rw [bind_apply, hfault]⟩

theorem failInspecting (v : Value) (cause : String → KindFault) : Refuses (Run.failInspecting v cause : Run α) :=
  bind (.inspected v) fun _ => fail _

end Refuses

end SmallLisp.Run
