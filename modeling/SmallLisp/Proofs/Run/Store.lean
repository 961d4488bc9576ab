/-
Values and states whose functions belong to frames of the store. The likeness `inStore` compares everything,
so what agrees by it is the same (`Alike.eq`); what it adds to equality is that the frames that functions
belong to exist, and that a frame is older than those inside of it.
-/
import SmallLisp.Proofs.Evaluation.Likeness
import SmallLisp.Proofs.Value.Soundness

namespace SmallLisp

/-! ## Values -/

namespace Value

/-- The frame that a function written in the language belongs to. -/
def frame? : Value → Option FrameId
  | .closure _ _ frame _ _ => some frame
  | _ => none

/-- Whether all functions in a value, at whatever depth, belong to one of the first `n` frames. -/
def FramesBelow (n : Nat) (v : Value) : Prop :=
  ∀ (inner : Value) (frame : FrameId), inner.Inside v → inner.frame? = some frame → frame < n

theorem framesBelow_iff {n : Nat} {v : Value} :
    v.FramesBelow n ↔ (∀ frame, v.frame? = some frame → frame < n) ∧ ∀ part ∈ v.parts, part.FramesBelow n := by
  constructor
  · exact fun h => ⟨fun frame => h v frame (inside_iff.2 (.inl rfl)), fun part hpart inner frame hin =>
      h inner frame (inside_iff.2 (.inr ⟨part, hpart, hin⟩))⟩
  · rintro ⟨hv, hparts⟩ inner frame hin
    rcases inside_iff.1 hin with rfl | ⟨part, hpart, hin⟩
    · exact hv frame
    · exact hparts part hpart inner frame hin

theorem FramesBelow.part {n : Nat} {v part : Value} (h : v.FramesBelow n) (hpart : part ∈ v.parts) :
    part.FramesBelow n :=
  (framesBelow_iff.1 h).2 part hpart

end Value

namespace Likeness

/-- Everything counts, and functions belong to frames that there are. -/
def inStore : Likeness where
  refers n id := id < n
  admits _ := True
  comparesInfo := True
  refers_mono h hid := Nat.lt_of_lt_of_le hid h
  refers_new n := Nat.lt_succ_self n
  comparesInfo_of_admits _ := trivial

variable {n : Nat}

mutual

/-- Values that agree by everything are the same. -/
theorem Alike.eq : ∀ {v w : Value}, inStore.Alike n v w → v = w
  | .nil, _, .nil | .bool _, _, .bool _ | .int _, _, .int _ | .float _, _, .float _ | .str _, _, .str _
  | .symbol _, _, .symbol _ | .keyword _, _, .keyword _ | .cell _, _, .cell _ => rfl
  | .list .., _, .list h hinfo => by rw [AllAlike.eq h, Alike.eq (hinfo trivial)]
  | .vector .., _, .vector h hinfo => by rw [AllAlike.eq h, Alike.eq (hinfo trivial)]
  | .map .., _, h@(.map _ _ hinfo) => by rw [EntriesAlike.eq h.entries, Alike.eq (hinfo trivial)]
  | .closure .., _, .closure _ _ h _ hinfo => by rw [AllAlike.eq h, Alike.eq (hinfo trivial)]
  | .primitive .., _, .primitive _ _ hinfo => by rw [Alike.eq (hinfo trivial)]

theorem AllAlike.eq : ∀ {vs ws : List Value}, inStore.AllAlike n vs ws → vs = ws
  | [], _, .nil => rfl
  | _ :: _, _, .cons h hs => by rw [Alike.eq h, AllAlike.eq hs]

theorem EntriesAlike.eq : ∀ {as bs : List (Value × Value)}, inStore.EntriesAlike n as bs → as = bs
  | [], _, .nil => rfl
  | _ :: _, _ :: _, .cons h hs => by rw [Prod.ext (Alike.eq h.key) (Alike.eq h.value), EntriesAlike.eq hs]

end

/-- What agrees with itself has parts that do, and the frame that it belongs to exists. -/
theorem Alike.frame_lt {v : Value} (h : inStore.Alike n v v) {frame : FrameId} (hframe : v.frame? = some frame) :
    frame < n := by
  cases v with
  | closure =>
    cases hframe
    cases h with
    | closure _ _ _ hlt => exact hlt
  | _ => cases hframe

theorem Alike.part {v part : Value} (h : inStore.Alike n v v) (hpart : part ∈ v.parts) : inStore.Alike n part part := by
  cases v with
  | list =>
    cases h with
    | list hitems hinfo =>
      rcases List.mem_cons.1 hpart with rfl | hitem
      · exact hinfo trivial
      · exact List.forall₂_same.1 hitems part hitem
  | vector =>
    cases h with
    | vector hitems hinfo =>
      rcases List.mem_cons.1 hpart with rfl | hitem
      · exact hinfo trivial
      · exact List.forall₂_same.1 hitems part hitem
  | map =>
    cases h with
    | map hkeys hvalues hinfo =>
      rcases List.mem_cons.1 hpart with rfl | hpart
      · exact hinfo trivial
      · rcases List.mem_append.1 hpart with hkey | hvalue
        · obtain ⟨entry, hentry, rfl⟩ := List.mem_map.1 hkey
          exact List.forall₂_same.1 hkeys entry hentry
        · obtain ⟨entry, hentry, rfl⟩ := List.mem_map.1 hvalue
          exact List.forall₂_same.1 hvalues entry hentry
  | closure =>
    cases h with
    | closure _ _ hbody _ hinfo =>
      rcases List.mem_cons.1 hpart with rfl | hform
      · exact hinfo trivial
      · exact List.forall₂_same.1 hbody part hform
  | primitive =>
    cases h with
    | primitive _ _ hinfo =>
      cases List.mem_singleton.1 hpart
      exact hinfo trivial
  | _ => exact absurd hpart List.not_mem_nil

theorem Alike.framesBelow {v : Value} (h : inStore.Alike n v v) : v.FramesBelow n := by
  intro inner frame hin
  -- on the way to what is inside, everything agrees with itself
  have hinner : inStore.Alike n inner inner := by
    induction hin using Relation.ReflTransGen.head_induction_on with
    | refl => exact h
    | head hpart _ ih => exact ih.part hpart
  exact hinner.frame_lt

mutual

theorem alike_of_framesBelow : ∀ {v : Value}, v.FramesBelow n → inStore.Alike n v v
  | .nil, _ => .nil
  | .bool b, _ => .bool b
  | .int i, _ => .int i
  | .float x, _ => .float x
  | .str text, _ => .str text
  | .symbol name, _ => .symbol name
  | .keyword name, _ => .keyword name
  | .cell id, _ => .cell id
  | .list .., h =>
    .list (allAlike_of_framesBelow fun _ hv => h.part (List.mem_cons_of_mem _ hv)) fun _ =>
      alike_of_framesBelow (h.part (List.mem_cons_self ..))
  | .vector .., h =>
    .vector (allAlike_of_framesBelow fun _ hv => h.part (List.mem_cons_of_mem _ hv)) fun _ =>
      alike_of_framesBelow (h.part (List.mem_cons_self ..))
  | .map .., h =>
    alike_map (entriesAlike_of_framesBelow fun _ he =>
      ⟨h.part (List.mem_cons_of_mem _ (List.mem_append_left _ (List.mem_map_of_mem he))),
        h.part (List.mem_cons_of_mem _ (List.mem_append_right _ (List.mem_map_of_mem he)))⟩) fun _ =>
      alike_of_framesBelow (h.part (List.mem_cons_self ..))
  | .closure params _ frame isMacro _, h =>
    .closure params isMacro (allAlike_of_framesBelow fun _ hv => h.part (List.mem_cons_of_mem _ hv))
      ((Value.framesBelow_iff.1 h).1 frame rfl) fun _ => alike_of_framesBelow (h.part (List.mem_cons_self ..))
  | .primitive _ isMacro _, h =>
    .primitive isMacro trivial fun _ => alike_of_framesBelow (h.part (List.mem_cons_self ..))

theorem allAlike_of_framesBelow : ∀ {vs : List Value}, (∀ v ∈ vs, v.FramesBelow n) → inStore.AllAlike n vs vs
  | [], _ => .nil
  | _ :: _, h =>
    .cons (alike_of_framesBelow (List.forall_mem_cons.1 h).1) (allAlike_of_framesBelow (List.forall_mem_cons.1 h).2)

theorem entriesAlike_of_framesBelow : ∀ {entries : List (Value × Value)},
    (∀ entry ∈ entries, entry.1.FramesBelow n ∧ entry.2.FramesBelow n) → inStore.EntriesAlike n entries entries
  | [], _ => .nil
  | (_, _) :: _, h => by
    obtain ⟨⟨hkey, hvalue⟩, hrest⟩ := List.forall_mem_cons.1 h
    exact .cons ⟨alike_of_framesBelow hkey, alike_of_framesBelow hvalue⟩ (entriesAlike_of_framesBelow hrest)

end

/-! ## States -/

theorem BindingsAlike.eq {as bs : Bindings} (h : inStore.BindingsAlike n as bs) : as = bs :=
  List.forall₂_eq_eq_eq ▸ h.imp fun _ _ h => Prod.ext h.name_eq h.value.eq

theorem FrameAlike.eq {id : FrameId} {a b : Frame} (h : inStore.FrameAlike n id a b) : a = b := by
  cases a
  cases b
  exact congrArg₂ Frame.mk h.outer_eq h.bindings.eq

/-- States that agree by everything are the same. -/
theorem StatesAlike.eq {s t : State} (h : inStore.StatesAlike n s t) : s = t := by
  have hframes : s.frames = t.frames := by simpa using h.frames_map_eq (g := id) FrameAlike.eq
  have hcells : s.cells = t.cells := by simpa using h.cells.map_eq (g := id) Alike.eq
  have houtside := h.outside
  show { s.outside with frames := s.frames, cells := s.cells } = t
  rw [houtside, hframes, hcells]
  rfl

/-- What is held belongs to frames that there are. -/
theorem StatesAlike.framesBelow {s : State} (h : inStore.StatesAlike n s s) {v : Value} (hv : s.Holds v) :
    v.FramesBelow n := by
  obtain ⟨w, hvw⟩ := h.exists_alike hv
  obtain rfl := hvw.eq
  exact hvw.framesBelow

/-- The frame around another is older. -/
theorem StatesAlike.outer_lt {s : State} (h : inStore.StatesAlike n s s) {id outer : FrameId} {frame : Frame}
    (hframe : s.frames[id]? = some frame) (houter : frame.outer = some outer) : outer < id := by
  have hid := h.frames id
  rw [hframe] at hid
  cases hid with
  | some hid => exact hid.refers outer houter

end Likeness

end SmallLisp
