/-
The lines of the input, and what a session does to them. It takes lines from the front and nothing else, and when it
raises a value as a fault, then that value has a text in the state that it leaves. Main statement: `orderly_closed`.
-/
import SmallLisp.Proofs.Evaluation.Compositional
import SmallLisp.Proofs.Value.Inspection
import SmallLisp.Session

namespace SmallLisp

/-! ## Lines -/

/-- The lines of a text. A newline ends each of them but the last, which is not empty if it has none. -/
def linesOf : List Char → List (List Char)
  | [] => []
  | c :: cs =>
    if c == '\n' then [] :: linesOf cs
    else match linesOf cs with
      | [] => [[c]]
      | line :: lines => (c :: line) :: lines

/-- A text begins with its first line. -/
theorem linesOf_of_dropWhile (cs : List Char) : linesOf cs = match cs.dropWhile (· != '\n') with
    | _ :: rest => cs.takeWhile (· != '\n') :: linesOf rest
    | [] => if cs.isEmpty then [] else [cs] := by
  induction cs with
  | nil => rfl
  | cons c cs ih =>
    rw [linesOf, List.dropWhile_cons, List.takeWhile_cons]
    by_cases hc : (c == '\n') = true
    · have hne : ¬(c != '\n') = true := by simpa using hc
      rw [if_pos hc, if_neg hne, if_neg hne]
    · have hne : (c != '\n') = true := by simpa using hc
      rw [if_neg hc, if_pos hne, if_pos hne, ih]
      cases cs.dropWhile (· != '\n') with
      | cons => rfl
      | nil => cases cs <;> rfl

namespace State

/-- The lines that are left to be read. -/
def lines (s : State) : List String := (linesOf s.input).map String.ofList

/-- The next line is the first one that is left; while more may be typed, there may be none yet. -/
theorem lines_of_nextLine (s : State) : match s.nextLine with
    | .line text rest => s.lines = text :: (linesOf rest).map String.ofList
    | .ended => s.lines = []
    | .waiting => s.inputEnded = false := by
  have hall := List.takeWhile_append_dropWhile (p := (· != '\n')) (l := s.input)
  rw [lines, linesOf_of_dropWhile, nextLine]
  cases hdrop : s.input.dropWhile (· != '\n') with
  | cons newline rest => rfl
  | nil =>
    rw [hdrop, List.append_nil] at hall
    dsimp only
    rw [hall]
    cases hended : s.inputEnded with
    | false => rfl
    | true =>
      cases hempty : s.input.isEmpty with
      | true => rfl
      | false => rfl

/-- What may become of the input: some lines at its front are gone. -/
structure ReadsOn (s t : State) : Prop where
  inputEnded_eq : t.inputEnded = s.inputEnded
  lines : ∃ taken, s.lines = taken ++ t.lines

namespace ReadsOn

variable {s t u : State}

theorem of_input (hinput : t.input = s.input) (hended : t.inputEnded = s.inputEnded) : s.ReadsOn t :=
  ⟨hended, [], by rw [State.lines, State.lines, hinput, List.nil_append]⟩

theorem refl (s : State) : s.ReadsOn s := of_input rfl rfl

theorem trans (hst : s.ReadsOn t) (htu : t.ReadsOn u) : s.ReadsOn u := by
  obtain ⟨hended, taken, htaken⟩ := hst
  obtain ⟨hended', taken', htaken'⟩ := htu
  exact ⟨hended'.trans hended, taken ++ taken', by rw [htaken, htaken', List.append_assoc]⟩

end ReadsOn

end State

/-! ## Texts of a session -/

namespace Run.Closed

variable {P : ∀ α : Type, Run α → Prop} (h : Run.Closed P)
include h

theorem foldForms {α : Type} (steps : Nat) {f : α → Value → Run α} (hf : ∀ a v, P α (f a v)) :
    ∀ (start : α) (forms : List Value), P α (Session.foldForms steps f start forms)
  | _, [] => h.pure _
  | start, form :: forms =>
    h.bind (h.evaluate steps form rootFrame) fun value => h.bind (hf start value) fun result =>
      foldForms steps hf result forms

theorem foldText {α : Type} (steps : Nat) {f : α → Value → Run α} (hf : ∀ a v, P α (f a v)) (start : α)
    (text : String) : P α (Session.foldText steps f start text) := by
  refine h.bind (h.foldForms steps hf start _) fun result => ?_
  split
  · exact h.pure _
  · exact h.fail fun _ _ => nofun

/-- A closed property holds of the evaluation of a text, printing included. -/
theorem rep (steps : Nat) (text : String) : P (Option String) (Session.rep steps text) :=
  h.foldText steps (fun _ value => h.bind (h.shown value) fun _ => h.pure _) none text

end Run.Closed

/-! ## Orderly runs -/

/-- The run takes nothing from the input but lines at its front, and if it raises a value, then that value has a text
in fault messages in the state that is left. -/
def Run.Orderly (α : Type) (x : Run α) : Prop :=
  ∀ s, s.ReadsOn (x s).state ∧ ∀ v shown t, x s = .fault (.thrown v shown) t → v.inspect t.cells = .ok shown

theorem orderly_of_input {α : Type} {x : Run α} (hinput : ∀ s, (x s).state.input = s.input)
    (hended : ∀ s, (x s).state.inputEnded = s.inputEnded) (hvalue : ∀ s, ∃ a t, x s = .value a t) :
    Run.Orderly α x := by
  refine fun s => ⟨.of_input (hinput s) (hended s), fun v shown t hx => ?_⟩
  obtain ⟨a, t', ha⟩ := hvalue s
  cases ha.symm.trans hx

theorem orderly_closed : Run.Closed Run.Orderly where
  pure a := orderly_of_input (fun _ => rfl) (fun _ => rfl) fun s => ⟨a, s, rfl⟩
  halt need s := ⟨.refl s, nofun⟩
  fail hown s := ⟨.refl s, fun v shown t hx => by cases hx; exact absurd rfl (hown v shown)⟩
  throw v s := by
    rw [Run.bind_apply, Run.inspected, Run.ask]
    cases hshown : v.inspect s.cells with
    | ok shown => exact ⟨.refl s, fun v shown t hx => by cases hx; exact hshown⟩
    | error f =>
      have hown := Value.inspect_fails (F := Fault.IsOwn) (fun _ _ => nofun) (fun _ _ => nofun) s.cells v f hshown
      exact ⟨.refl s, fun v shown t hx => by cases hx; exact absurd rfl (hown v shown)⟩
  bind {α β x f} hx hf s := by
    obtain ⟨hreads, hthrown⟩ := hx s
    rw [Run.bind_apply]
    cases hs : x s with
    | value a t =>
      rw [hs] at hreads
      obtain ⟨hreads', hthrown'⟩ := hf a t
      exact ⟨hreads.trans hreads', hthrown'⟩
    | fault fault t =>
      rw [hs] at hreads
      exact ⟨hreads, fun v shown t ht => by cases ht; exact hthrown v shown _ hs⟩
    | halted need t =>
      rw [hs] at hreads
      exact ⟨hreads, nofun⟩
  handle {α x f} hx hf s := by
    obtain ⟨hreads, -⟩ := hx s
    unfold Run.handle
    cases hs : x s with
    | fault fault t =>
      rw [hs] at hreads
      obtain ⟨hreads', hthrown'⟩ := hf fault t
      exact ⟨hreads.trans hreads', hthrown'⟩
    | value | halted =>
      rw [hs] at hreads
      exact ⟨hreads, nofun⟩
  look hlook s := by
    obtain ⟨y, hy, heq⟩ := hlook s
    rw [heq]
    exact hy s
  newFrame _ _ := orderly_of_input (fun _ => rfl) (fun _ => rfl) fun _ => ⟨_, _, rfl⟩
  define _ _ _ := orderly_of_input (fun _ => rfl) (fun _ => rfl) fun _ => ⟨_, _, rfl⟩
  newCell _ := orderly_of_input (fun _ => rfl) (fun _ => rfl) fun _ => ⟨_, _, rfl⟩
  setContent _ _ := orderly_of_input (fun _ => rfl) (fun _ => rfl) fun _ => ⟨_, _, rfl⟩
  print _ := orderly_of_input (fun _ => rfl) (fun _ => rfl) fun _ => ⟨_, _, rfl⟩
  nextLine s := by
    have hlines := s.lines_of_nextLine
    unfold Run.nextLine
    cases hline : s.nextLine with
    | line text rest =>
      rw [hline] at hlines
      exact ⟨⟨rfl, [text], hlines⟩, nofun⟩
    | ended | waiting => exact ⟨.refl s, nofun⟩
  readClock := orderly_of_input (fun _ => rfl) (fun _ => rfl) fun _ => ⟨_, _, rfl⟩

end SmallLisp
