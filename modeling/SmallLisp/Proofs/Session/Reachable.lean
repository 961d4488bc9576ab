/-
The states that a session can reach: from the primitives alone, by any texts that are evaluated one
after the other, however their evaluation ends or where it is interrupted. All of them are sound
(`Reachable.sound`), and so is every value that a text comes to.
-/
import SmallLisp.Proofs.Evaluation.Soundness
import SmallLisp.Session

namespace SmallLisp

open Run (Safe Ensures)
open Run.Safe

namespace Session

/-- The states of a session. A run that is short of steps counts with the state that it was in, so
states between two steps are reached as well. Between runs the outside may do anything but touch
frames and cells: a line is typed, a file written, the clock moves on. -/
inductive Reachable : State → Prop where
  | initial (arguments : List String) (files : Files) (input : String) (inputEnded : Bool) (clock : Nat) :
    Reachable (State.initial arguments files input inputEnded clock)
  | start {s : State} (steps : Nat) (settings : Settings) (choice : PreludeChoice) :
    Reachable s → Reachable (Session.start steps settings choice s).state
  | eval {s : State} (steps : Nat) (text : String) : Reachable s → Reachable (Session.eval steps text s).state
  | rep {s : State} (steps : Nat) (text : String) : Reachable s → Reachable (Session.rep steps text s).state
  | outside {s s' : State} : Reachable s → s'.frames = s.frames → s'.cells = s.cells → Reachable s'

/-! ## Texts -/

section Texts

variable {α : Type} {files : Files} {f : α → Value → Run α} {Q : α → Prop}
  (hf : ∀ result value, Q result → value.Sound → Safe files (f result value) Q)
include hf

theorem foldForms_safe (steps : Nat) : ∀ {forms : List Value} {result : α}, (∀ form ∈ forms, form.Literal) →
    Q result → Safe files (foldForms steps f result forms) Q
  | [], _, _, h => .pure h
  | form :: forms, _, hforms, h => by
    obtain ⟨hform, hrest⟩ := List.forall_mem_cons.1 hforms
    exact .bind (evaluate_safe steps form rootFrame hform.sound) fun value hvalue =>
      .bind (hf _ value h hvalue) fun _ hresult => foldForms_safe steps hrest hresult

theorem foldText_safe (steps : Nat) {start : α} (h : Q start) (text : String) :
    Safe files (foldText steps f start text) Q := by
  refine .bind (foldForms_safe hf steps (Source.readAll_literal text) h) fun result hresult => ?_
  split
  · exact .pure hresult
  · exact .fail (.reading _) _

end Texts

theorem eval_safe {files : Files} (steps : Nat) (text : String) : Safe files (Session.eval steps text) Value.Sound :=
  foldText_safe (fun _ _ _ hvalue => .pure hvalue) steps Value.sound_nil text

theorem rep_safe {files : Files} (steps : Nat) (text : String) : Safe files (Session.rep steps text) fun _ => True :=
  foldText_safe (fun _ value _ _ => .bind (shown value) fun _ _ => .pure trivial) steps trivial text

/-- A text of a single form comes to what the form does. -/
theorem eval_eq_evaluate {text : String} {form : Value} (h : Source.readAll text = ⟨[form], none, []⟩) (steps : Nat) :
    Session.eval steps text = evaluate steps form rootFrame := by
  funext s
  unfold Session.eval foldText
  simp only [h, foldForms, Bind.bind, Run.bind]
  cases evaluate steps form rootFrame s <;> rfl

/-! ## Start

The start may end with a fault of its own, which says nothing about a program. -/

/-- The run keeps states sound, whatever fault it ends with. -/
def KeepsSound {α : Type} (files : Files) (x : Run α) : Prop :=
  Ensures (State.SoundOver files) x (fun _ => True) fun _ => True

theorem keepsSound_of_safe {α : Type} {files : Files} {x : Run α} {Q : α → Prop} (h : Safe files x Q) :
    KeepsSound files x := h.mono (fun _ _ => trivial) fun _ _ => trivial

section Start

variable {files : Files}

theorem isDirectory_keepsSound (path : Path) : KeepsSound files (Settings.isDirectory path) := by
  refine .bind (keepsSound_of_safe (tryReadFile path)) fun answer _ => ?_
  split
  · exact .pure trivial
  · exact .fail trivial _
  · exact .pure trivial

theorem preludeDirectory?_keepsSound (settings : Settings) : KeepsSound files settings.preludeDirectory? := by
  unfold Settings.preludeDirectory?
  split
  · exact .pure trivial
  · exact .bind (isDirectory_keepsSound _) fun _ _ => .pure trivial

theorem loadPrelude_keepsSound (steps : Nat) (settings : Settings) : KeepsSound files (loadPrelude steps settings) := by
  unfold loadPrelude
  -- what the standard prelude says does not matter, and nothing here may read it
  generalize standardPrelude = prelude
  refine .bind (preludeDirectory?_keepsSound settings) fun directory? _ => ?_
  split
  · exact .bind (keepsSound_of_safe (eval_safe steps prelude)) fun _ _ => .pure trivial
  · refine .bind (keepsSound_of_safe (tryReadFile _)) fun answer _ => ?_
    split
    · exact .bind (keepsSound_of_safe (eval_safe steps _)) fun _ _ => .pure trivial
    · exact .fail trivial _
    · exact .fail trivial _

theorem start_keepsSound (steps : Nat) (settings : Settings) (choice : PreludeChoice) :
    KeepsSound files (Session.start steps settings choice) := by
  unfold Session.start
  split
  · exact .pure trivial
  · exact .bind (keepsSound_of_safe (eval_safe steps _)) fun _ _ => .pure trivial
  · refine .handle (.bind (loadPrelude_keepsSound steps settings) fun _ _ => .pure trivial) fun fault _ => ?_
    split
    · exact .pure trivial
    · exact .fail trivial _

end Start

/-! ## Reachable states -/

theorem rootBindings_sound (arguments : List String) : (rootBindings arguments).Sound := by
  intro binding hb
  rcases List.mem_append.1 hb with hb | hb
  · obtain ⟨p, _, rfl⟩ := List.mem_map.1 hb
    exact Value.sound_primitive.2 Value.sound_nil
  · rw [List.mem_singleton.1 hb]
    refine Value.sound_ofList fun v hv => ?_
    obtain ⟨argument, _, rfl⟩ := List.mem_map.1 hv
    exact Value.sound_str argument

theorem initial_sound (arguments : List String) (files : Files) (input : String) (inputEnded : Bool) (clock : Nat) :
    (State.initial arguments files input inputEnded clock).SoundOver files where
  disk := rfl
  held v hv := by
    cases hv with
    | @bound id frame name hframe hmem =>
      -- there is the root frame only
      cases id with
      | zero =>
        cases hframe
        exact rootBindings_sound arguments _ hmem
      | succ id => cases hframe
    | content hcell => cases hcell

theorem sound_here {files : Files} {s : State} (h : s.SoundOver files) : s.SoundOver s.files := ⟨rfl, h.held⟩

/-- Whatever a session has done, its state is sound. -/
theorem Reachable.sound {s : State} (h : Reachable s) : s.SoundOver s.files := by
  induction h with
  | initial arguments files input inputEnded clock => exact initial_sound arguments files input inputEnded clock
  | start steps settings choice _ ih => exact sound_here ((start_keepsSound steps settings choice).state ih)
  | eval steps text _ ih => exact sound_here ((eval_safe steps text).state ih)
  | rep steps text _ ih => exact sound_here ((rep_safe steps text).state ih)
  | @outside s s' _ hframes hcells ih =>
    refine ⟨rfl, fun v hv => ih.held v ?_⟩
    cases hv with
    | bound hframe hmem => exact .bound (hframes ▸ hframe) hmem
    | content hcell => exact .content (hcells ▸ hcell)

end Session

end SmallLisp
