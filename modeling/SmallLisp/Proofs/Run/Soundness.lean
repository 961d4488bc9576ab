/-
Sound states: whatever a frame binds and whatever lies in a cell is sound. A run is safe if it leads
from sound states to sound states over the same disk, and if the faults that it ends with are
regular: none that only a missing check could let through. Here for the runs that everything else
is made of.
-/
import SmallLisp.Proofs.Run.Ensures
import SmallLisp.Proofs.Value.Soundness
import SmallLisp.Shape

namespace SmallLisp

open Value (AllSound)

/-! ## Regular faults -/

/-- The faults that evaluation may end with over a disk. A thrown value is sound, and a file is at
fault only where the disk says so. -/
inductive Fault.Regular (files : Files) : Fault → Prop where
  | reading (cause : ReadFault) : Regular files (.reading cause)
  | unbound (name : String) : Regular files (.unbound name)
  | arity (cause : ArityFault) : Regular files (.arity cause)
  | kind (cause : KindFault) : Regular files (.kind cause)
  | divisionByZero : Regular files .divisionByZero
  | indexOutOfRange : Regular files .indexOutOfRange
  | thrown {value : Value} (shown : String) : value.Sound → Regular files (.thrown value shown)
  | doubleOverflow : Regular files .doubleOverflow
  | integerTooLong : Regular files .integerTooLong
  | endlessText : Regular files .endlessText
  | file {cause : FileFault} (name : String) :
    files.lookup? (Path.ofString name) = some (.error cause) → Regular files (.file cause)

/-- What a handler gets to see is sound. -/
theorem Fault.Regular.caught_sound {files : Files} {f : Fault} (h : f.Regular files) : f.caught.Sound := by
  cases h with
  | thrown shown h => exact h
  | _ => exact Value.sound_str _

/-! ## Computations that fail

Texts of values and arithmetic are computed apart from the state. -/

/-- The computation fails with faults of a certain property only. -/
def FailsOnly {α : Type} (F : Fault → Prop) (x : Except Fault α) : Prop := ∀ f, x = .error f → F f

namespace FailsOnly

variable {α β : Type} {F : Fault → Prop}

theorem ok (a : α) : FailsOnly F (.ok a : Except Fault α) := fun _ h => nomatch h

theorem error {f : Fault} (h : F f) : FailsOnly F (.error f : Except Fault α) := fun _ hf => Except.error.inj hf ▸ h

theorem bind {x : Except Fault α} {g : α → Except Fault β} (h : FailsOnly F x) (hg : ∀ a, FailsOnly F (g a)) :
    FailsOnly F (x >>= g) := by
  cases x with
  | ok a => exact hg a
  | error f => exact error (h f rfl)

theorem map {x : Except Fault α} (h : FailsOnly F x) (g : α → β) : FailsOnly F (x.map g) := by
  cases x with
  | ok a => exact ok _
  | error f => exact error (h f rfl)

end FailsOnly

namespace Value

open FailsOnly

variable {F : Fault → Prop} {cell : CellId → Except Fault String}

theorem integerText_fails (hlimit : F .integerTooLong) (n : Int) : FailsOnly F (integerText n) := by
  unfold integerText
  split
  · exact ok _
  · exact error hlimit

mutual

theorem textWith_fails {readable : Bool} (hlimit : F .integerTooLong) (hcell : ∀ id, FailsOnly F (cell id)) :
    ∀ v : Value, FailsOnly F (textWith readable cell v)
  | .int n => integerText_fails hlimit n
  | .list items _ | .vector items _ => (textsWith_fails hlimit hcell items).map _
  | .map entries _ => (entryTextsWith_fails hlimit hcell entries).map _
  | .cell id => hcell id
  | .nil | .bool _ | .float _ | .str _ | .symbol _ | .keyword _ | .closure .. | .primitive .. => ok _

theorem textsWith_fails {readable : Bool} (hlimit : F .integerTooLong) (hcell : ∀ id, FailsOnly F (cell id))
    (vs : List Value) : FailsOnly F (textsWith readable cell vs) := by
  cases vs with
  | nil => exact ok _
  | cons v vs =>
    exact (textWith_fails hlimit hcell v).bind fun _ => (textsWith_fails hlimit hcell vs).bind fun _ => ok _

theorem entryTextsWith_fails {readable : Bool} (hlimit : F .integerTooLong) (hcell : ∀ id, FailsOnly F (cell id))
    (entries : List (Value × Value)) : FailsOnly F (entryTextsWith readable cell entries) := by
  cases entries with
  | nil => exact ok _
  | cons entry entries =>
    obtain ⟨k, v⟩ := entry
    exact (textWith_fails hlimit hcell k).bind fun _ => (textWith_fails hlimit hcell v).bind fun _ =>
      (entryTextsWith_fails hlimit hcell entries).bind fun _ => ok _

end

mutual

theorem inspectWith_fails (hlimit : F .integerTooLong) (hcell : ∀ id, FailsOnly F (cell id)) :
    ∀ v : Value, FailsOnly F (inspectWith cell v)
  | .int n => integerText_fails hlimit n
  | .list items _ | .vector items _ => (inspectAllWith_fails hlimit hcell items).map _
  | .map entries _ => (inspectEntriesWith_fails hlimit hcell entries).map _
  | .cell id => hcell id
  | .closure _ body _ _ _ => (inspectAllWith_fails hlimit hcell body).bind fun _ => ok _
  | .nil | .bool _ | .float _ | .str _ | .symbol _ | .keyword _ | .primitive .. => ok _

theorem inspectAllWith_fails (hlimit : F .integerTooLong) (hcell : ∀ id, FailsOnly F (cell id)) (vs : List Value) :
    FailsOnly F (inspectAllWith cell vs) := by
  cases vs with
  | nil => exact ok _
  | cons v vs =>
    exact (inspectWith_fails hlimit hcell v).bind fun _ => (inspectAllWith_fails hlimit hcell vs).bind fun _ => ok _

theorem inspectEntriesWith_fails (hlimit : F .integerTooLong) (hcell : ∀ id, FailsOnly F (cell id))
    (entries : List (Value × Value)) : FailsOnly F (inspectEntriesWith cell entries) := by
  cases entries with
  | nil => exact ok _
  | cons entry entries =>
    obtain ⟨k, v⟩ := entry
    exact (inspectWith_fails hlimit hcell k).bind fun _ => (inspectWith_fails hlimit hcell v).bind fun _ =>
      (inspectEntriesWith_fails hlimit hcell entries).bind fun _ => ok _

end

section

variable (hlimit : F .integerTooLong) (hendless : F .endlessText) (cells : Array Value)
include hlimit hendless

/-- A text fails only for an integer that is too long, or if a cell holds itself. -/
theorem text_fails (readable : Bool) (v : Value) : FailsOnly F (v.text readable cells) := by
  have hcell : ∀ depth id, FailsOnly F (cellText readable cells depth id) := by
    intro depth
    induction depth with
    | zero => exact fun _ => error hendless
    | succ depth ih => exact fun id => (textWith_fails hlimit ih _).map _
  exact textWith_fails hlimit (hcell _) v

theorem inspect_fails (v : Value) : FailsOnly F (v.inspect cells) := by
  have hcell : ∀ depth id, FailsOnly F (cellInspection cells depth id) := by
    intro depth
    induction depth with
    | zero => exact fun _ => error hendless
    | succ depth ih => exact fun id => (inspectWith_fails hlimit ih _).map _
  exact inspectWith_fails hlimit (hcell _) v

end

end Value

theorem checkCount_fails {F : Fault → Prop} (harity : ∀ cause, F (.arity cause)) {name : String} {count lower : Int}
    {upper : Option Int} : FailsOnly F (checkCount name count lower upper) := by
  unfold checkCount
  split
  · exact .error (harity _)
  · split
    · exact .ok _
    · split
      · exact .error (harity _)
      · exact .ok _

namespace Number

open FailsOnly

variable {F : Fault → Prop} (hoverflow : F .doubleOverflow)
include hoverflow

theorem toDouble_fails (a : Number) : FailsOnly F a.toDouble := by
  unfold toDouble
  -- how an integer is rounded does not matter, and no step of this may compute it
  obtain ⟨nearest, hnearest⟩ : ∃ nearest, nearest = Binary64.ofInt := ⟨_, rfl⟩
  rw [← hnearest]
  split
  · split
    · exact error hoverflow
    · exact ok _
  · exact ok _

theorem onDoubles_fails (op : Binary64 → Binary64 → Binary64) (a b : Number) : FailsOnly F (onDoubles op a b) :=
  (toDouble_fails hoverflow a).bind fun _ => (toDouble_fails hoverflow b).bind fun _ => ok _

theorem add_fails (a b : Number) : FailsOnly F (a.add b) := by
  unfold add
  split
  · exact ok _
  · exact onDoubles_fails hoverflow _ _ _

theorem sub_fails (a b : Number) : FailsOnly F (a.sub b) := by
  unfold sub
  split
  · exact ok _
  · exact onDoubles_fails hoverflow _ _ _

theorem mul_fails (a b : Number) : FailsOnly F (a.mul b) := by
  unfold mul
  split
  · exact ok _
  · exact onDoubles_fails hoverflow _ _ _

theorem div_fails (hzero : F .divisionByZero) (a b : Number) : FailsOnly F (a.div b) := by
  unfold div
  split
  · exact error hzero
  · split
    · exact ok _
    · exact onDoubles_fails hoverflow _ _ _

end Number

/-! ## Sound states -/

/-- Whether a frame binds a value or a cell holds it. -/
inductive State.Holds (s : State) (v : Value) : Prop where
  | bound {id : FrameId} {frame : Frame} {name : String} :
    s.frames[id]? = some frame → (name, v) ∈ frame.bindings → Holds s v
  | content {id : CellId} : s.cells[id]? = some v → Holds s v

/-- Whether the disk is a certain one and everything that is held is sound. -/
structure State.SoundOver (files : Files) (s : State) : Prop where
  disk : s.files = files
  held : ∀ v, s.Holds v → v.Sound

namespace Bindings

/-- Whether the values of bindings have a property. -/
def Each (P : Value → Prop) (bindings : Bindings) : Prop := ∀ binding ∈ bindings, P binding.2

abbrev Sound (bindings : Bindings) : Prop := bindings.Each Value.Sound

theorem each_nil (P : Value → Prop) : Each P [] := fun _ h => absurd h List.not_mem_nil

theorem Each.bind {P : Value → Prop} {bindings : Bindings} (h : bindings.Each P) (name : String) {value : Value}
    (hvalue : P value) : (Bindings.bind name value bindings).Each P := by
  induction bindings with
  | nil => exact List.forall_mem_cons.2 ⟨hvalue, h⟩
  | cons binding bindings ih =>
    obtain ⟨hbinding, hrest⟩ := List.forall_mem_cons.1 h
    rw [Bindings.bind]
    split
    · exact List.forall_mem_cons.2 ⟨hvalue, hrest⟩
    · exact List.forall_mem_cons.2 ⟨hbinding, ih hrest⟩

theorem mem_of_find? {bindings : Bindings} {name : String} {value : Value} (h : bindings.find? name = some value) :
    ∃ name, (name, value) ∈ bindings := by
  induction bindings with
  | nil => cases h
  | cons binding bindings ih =>
    rw [find?] at h
    split at h
    · cases h
      exact ⟨binding.1, List.mem_cons_self ..⟩
    · obtain ⟨name, hmem⟩ := ih h
      exact ⟨name, List.mem_cons_of_mem _ hmem⟩

end Bindings

/-- What a name stands for is held in some frame. -/
theorem State.holds_of_get? {s : State} {frame : FrameId} {name : String} {v : Value} (h : s.get? frame name = some v) :
    s.Holds v := by
  have hwithin : ∀ steps id found, s.resolveWithin name steps id = some found → s.Holds found.2 := by
    intro steps
    induction steps with
    | zero => exact fun _ _ h => nomatch h
    | succ steps ih =>
      intro id found h
      rw [resolveWithin] at h
      split at h
      · cases h
      · next hframe =>
        split at h
        · next hfind =>
          obtain ⟨_, hmem⟩ := Bindings.mem_of_find? hfind
          cases h
          exact .bound hframe hmem
        · split at h
          · cases h
          · exact ih _ _ h
  obtain ⟨found, hfound, rfl⟩ := Option.map_eq_some_iff.1 h
  exact hwithin _ _ found hfound

namespace State.SoundOver

variable {files : Files} {s : State}

/-- Console and clock do not matter. -/
theorem of_eq {s' : State} (hs : s.SoundOver files) (hframes : s'.frames = s.frames) (hcells : s'.cells = s.cells)
    (hfiles : s'.files = s.files) : s'.SoundOver files where
  disk := hfiles.trans hs.disk
  held v hv := by
    refine hs.held v ?_
    cases hv with
    | bound hframe hmem => exact .bound (hframes ▸ hframe) hmem
    | content hcell => exact .content (hcells ▸ hcell)

theorem addFrame (hs : s.SoundOver files) (outer : Option FrameId) {bindings : Bindings} (h : bindings.Sound) :
    (s.addFrame ⟨outer, bindings⟩).SoundOver files where
  disk := hs.disk
  held v hv := by
    cases hv with
    | @bound id frame name hframe hmem =>
      rw [State.addFrame, Array.getElem?_push] at hframe
      split at hframe
      · cases hframe
        exact h _ hmem
      · exact hs.held v (.bound hframe hmem)
    | content hcell => exact hs.held v (.content hcell)

theorem define (hs : s.SoundOver files) (id : FrameId) (name : String) {value : Value} (h : value.Sound) :
    (s.define id name value).SoundOver files where
  disk := hs.disk
  held v hv := by
    cases hv with
    | bound hframe hmem =>
      rw [State.define, Array.getElem?_modify] at hframe
      split at hframe
      · obtain ⟨old, hold, rfl⟩ := Option.map_eq_some_iff.1 hframe
        have hsound : old.bindings.Sound := fun binding hb => hs.held _ (.bound hold hb)
        exact (hsound.bind name h) _ hmem
      · exact hs.held v (.bound hframe hmem)
    | content hcell => exact hs.held v (.content hcell)

theorem addCell (hs : s.SoundOver files) {content : Value} (h : content.Sound) :
    (s.addCell content).SoundOver files where
  disk := hs.disk
  held v hv := by
    cases hv with
    | bound hframe hmem => exact hs.held v (.bound hframe hmem)
    | content hcell =>
      rw [State.addCell, Array.getElem?_push] at hcell
      split at hcell
      · cases hcell
        exact h
      · exact hs.held v (.content hcell)

theorem setContent (hs : s.SoundOver files) (id : CellId) {content : Value} (h : content.Sound) :
    (s.setContent id content).SoundOver files where
  disk := hs.disk
  held v hv := by
    cases hv with
    | bound hframe hmem => exact hs.held v (.bound hframe hmem)
    | content hcell =>
      rw [State.setContent, Array.set!_eq_setIfInBounds, Array.getElem?_setIfInBounds] at hcell
      split at hcell
      · split at hcell
        · cases hcell
          exact h
        · cases hcell
      · exact hs.held v (.content hcell)

theorem content (hs : s.SoundOver files) (id : CellId) : (s.content id).Sound := by
  unfold State.content
  rw [Array.getD_eq_getD_getElem?]
  cases hcell : s.cells[id]? with
  | none => exact Value.sound_nil
  | some v => exact hs.held v (.content hcell)

theorem get? (hs : s.SoundOver files) {frame : FrameId} {name : String} {v : Value} (h : s.get? frame name = some v) :
    v.Sound := hs.held v (State.holds_of_get? h)

end State.SoundOver

/-! ## Safe runs -/

namespace Run

/-- What passes the check for keys can be a key. -/
theorem Ensures.requireKey {I : State → Prop} {F : Fault → Prop} (name : String) {key : Value}
    (hshown : Ensures I (Run.shown key) (fun _ => True) F) (hkind : ∀ cause, F (.kind cause)) :
    Ensures I (Run.requireKey name key) (fun _ => key.Admissible) F := by
  unfold Run.requireKey
  split
  · exact .fail (hkind _) _
  · next hfunction =>
    split
    · next himmutable => exact .pure ⟨Bool.eq_false_iff.2 hfunction, himmutable⟩
    · exact .bind hshown fun _ _ => .fail (hkind _) _

variable {α : Type} {files : Files}

/-- The run leads from sound states to sound states, a value that it ends with has the property, and
a fault that it ends with is regular. -/
def Safe (files : Files) (x : Run α) (Q : α → Prop) : Prop :=
  Ensures (State.SoundOver files) x Q (Fault.Regular files)

namespace Safe

theorem failKind (cause : KindFault) (Q : α → Prop) : Safe files (Run.failKind cause : Run α) Q :=
  .fail (.kind cause) Q

theorem ofExcept {x : Except Fault α} (h : FailsOnly (Fault.Regular files) x) :
    Safe files (Run.ofExcept x) fun _ => True :=
  .ask (fun _ _ _ _ => trivial) fun _ => h

theorem shown (v : Value) : Safe files (Run.shown v) fun _ => True :=
  .ask (fun _ _ _ _ => trivial) fun s => Value.text_fails .integerTooLong .endlessText s.cells true v

theorem plain (v : Value) : Safe files (Run.plain v) fun _ => True :=
  .ask (fun _ _ _ _ => trivial) fun s => Value.text_fails .integerTooLong .endlessText s.cells false v

theorem inspected (v : Value) : Safe files (Run.inspected v) fun _ => True :=
  .ask (fun _ _ _ _ => trivial) fun s => Value.inspect_fails .integerTooLong .endlessText s.cells v

theorem failShowing (v : Value) (cause : String → KindFault) (Q : α → Prop) :
    Safe files (Run.failShowing v cause : Run α) Q := .bind (shown v) fun _ _ => failKind _ Q

theorem failInspecting (v : Value) (cause : String → KindFault) (Q : α → Prop) :
    Safe files (Run.failInspecting v cause : Run α) Q := .bind (inspected v) fun _ _ => failKind _ Q

/-! ### Frames -/

theorem newFrame (outer : Option FrameId) {bindings : Bindings} (h : bindings.Sound) :
    Safe files (Run.newFrame outer bindings) fun _ => True := fun _ hs => ⟨hs.addFrame outer h, trivial⟩

theorem define (frame : FrameId) (name : String) {value : Value} (h : value.Sound) :
    Safe files (Run.define frame name value) fun _ => True := .modify fun _ hs => hs.define frame name h

/-! ### Cells, console, files and clock -/

theorem newCell {content : Value} (h : content.Sound) : Safe files (Run.newCell content) fun _ => True :=
  fun _ hs => ⟨hs.addCell h, trivial⟩

theorem content (id : CellId) : Safe files (Run.content id) Value.Sound := fun _ hs => ⟨hs, hs.content id⟩

theorem setContent (id : CellId) {content : Value} (h : content.Sound) :
    Safe files (Run.setContent id content) fun _ => True := .modify fun _ hs => hs.setContent id h

theorem print (text : String) : Safe files (Run.print text) fun _ => True :=
  .modify fun _ hs => hs.of_eq rfl rfl rfl

theorem nextLine : Safe files Run.nextLine fun _ => True := by
  intro s hs
  unfold Run.nextLine
  cases s.nextLine with
  | line text rest => exact ⟨hs.of_eq rfl rfl rfl, trivial⟩
  | ended => exact ⟨hs, trivial⟩
  | waiting => exact hs

/-- If a file cannot be read, then the disk has said so. -/
theorem tryReadFile (path : Path) : Safe files (Run.tryReadFile path) fun answer =>
    ∀ cause, answer = .error cause → files.lookup? path = some (.error cause) := by
  intro s hs
  unfold Run.tryReadFile
  rw [hs.disk]
  cases h : files.lookup? path with
  | none => exact hs
  | some answer =>
    cases answer with
    | ok text => exact ⟨hs, fun _ h => nomatch h⟩
    | error cause => exact ⟨hs, fun _ h => Except.error.inj h ▸ rfl⟩

theorem readFile (name : String) : Safe files (Run.readFile (Path.ofString name)) fun _ => True := by
  refine .bind (tryReadFile _) fun answer hanswer => ?_
  cases answer with
  | ok text => exact .pure trivial
  | error cause => exact .fail (.file name (hanswer cause rfl)) _

theorem readClock : Safe files Run.readClock fun _ => True := fun _ hs => ⟨hs.of_eq rfl rfl rfl, trivial⟩

/-! ### What is demanded of arguments -/

variable {args : List Value}

theorem exactlyOne (name : String) (h : AllSound args) : Safe files (Run.exactlyOne name args) Value.Sound := by
  unfold Run.exactlyOne
  split
  · exact .pure (h _ (List.mem_cons_self ..))
  · exact .fail (.arity _) _
  · exact .fail (.arity _) _

theorem exactlyTwo (name : String) (h : AllSound args) :
    Safe files (Run.exactlyTwo name args) fun (a, b) => a.Sound ∧ b.Sound := by
  unfold Run.exactlyTwo
  split
  · exact .pure ⟨h _ (by simp), h _ (by simp)⟩
  · exact .fail (.arity _) _
  · exact .fail (.arity _) _

theorem oneOrMore (name : String) (h : AllSound args) :
    Safe files (Run.oneOrMore name args) fun (a, rest) => a.Sound ∧ AllSound rest := by
  unfold Run.oneOrMore
  split
  · exact .pure (List.forall_mem_cons.1 h)
  · exact .fail (.arity _) _

theorem twoOrMore (name : String) (h : AllSound args) :
    Safe files (Run.twoOrMore name args) fun (a, b, rest) => a.Sound ∧ b.Sound ∧ AllSound rest := by
  unfold Run.twoOrMore
  split
  · exact .pure ⟨h _ (by simp), h _ (by simp), fun v hv => h v (by simp [hv])⟩
  · exact .fail (.arity _) _

theorem sequence (name : String) {v : Value} (h : v.Sound) : Safe files (Run.sequence name v) AllSound := by
  unfold Run.sequence
  split
  · exact .pure fun _ hv => absurd hv List.not_mem_nil
  · split
    · next hitems => exact .pure (h.items hitems)
    · exact failShowing _ _ _

theorem entries (name : String) {v : Value} (h : v.Sound) : Safe files (Run.entries name v) Entries.Sound := by
  unfold Run.entries
  split
  · exact .pure Entries.sound_nil
  · exact .pure (Value.sound_map.1 h).1
  · exact failShowing _ _ _

theorem numbers (name : String) : ∀ vs : List Value, Safe files (Run.numbers name vs) fun _ => True
  | [] => .pure trivial
  | v :: vs => by
    unfold Run.numbers
    split
    · exact .bind (numbers name vs) fun _ _ => .pure trivial
    · exact failShowing _ _ _

theorem requireCell (name : String) (v : Value) : Safe files (Run.requireCell name v) fun _ => True := by
  unfold Run.requireCell
  split
  · exact .pure trivial
  · exact failShowing _ _ _

theorem requireKey (name : String) (key : Value) : Safe files (Run.requireKey name key) fun _ => key.Admissible :=
  Ensures.requireKey name (shown key) .kind

end Safe

end Run

end SmallLisp
