/-
Names over the history of a forest of frames. Frames are made inside of others or alone, and names are bound in
them, in any order; a step that fails binds what it has bound until then. What a name stands for is told by the
history alone (`Past`): the latest binding in the nearest frame outwards that ever bound it. Main statement:
`lookup_history`.
-/
import SmallLisp.Parameters
import SmallLisp.Proofs.Run.Chains
import SmallLisp.Proofs.Run.Looking

namespace SmallLisp

/-! ## Bindings -/

namespace Bindings

theorem find?_bind (bindings : Bindings) (bound : String) (value : Value) (name : String) :
    (bindings.bind bound value).find? name = if bound == name then some value else bindings.find? name := by
  induction bindings with
  | nil => rfl
  | cons binding bindings ih =>
    obtain ⟨first, old⟩ := binding
    rw [bind]
    split
    · next hfirst =>
      rw [find?, find?, beq_iff_eq.1 hfirst]
      split <;> rfl
    · next hfirst =>
      rw [find?, find?, ih]
      by_cases hname : (first == name) = true
      · -- the first name is not the one that is bound
        have hother : ¬(bound == name) = true := fun hbound =>
          hfirst (beq_iff_eq.2 ((beq_iff_eq.1 hname).trans (beq_iff_eq.1 hbound).symm))
        simp only [hname, if_true, if_neg hother]
      · simp only [if_neg hname]

/-- Of names that are bound one after the other, the last binding counts. -/
theorem find?_bindAll (bindings pairs : Bindings) (name : String) : (bindings.bindAll pairs).find? name =
    ((pairs.reverse.find? fun pair => pair.1 == name).map (·.2)).or (bindings.find? name) := by
  induction pairs generalizing bindings with
  | nil => rfl
  | cons pair pairs ih =>
    show (bindAll (bindings.bind pair.1 pair.2) pairs).find? name = _
    rw [ih, find?_bind, List.reverse_cons, List.find?_append, List.find?_singleton]
    cases pairs.reverse.find? fun pair => pair.1 == name with
    | some found => rfl
    | none => cases pair.1 == name <;> rfl

end Bindings

/-! ## Steps -/

/-- A step on a forest of frames. What is to be a name need not be a symbol; the step fails there. -/
inductive FrameStep where
  | create (outer : Option FrameId) (names values : List Value)
  | define (frame : FrameId) (name value : Value)
  | update (frame : FrameId) (entries : List (Value × Value))

namespace FrameStep

def run : FrameStep → Run Unit
  | .create outer names values => do
    let _ ← Run.newFrame outer (← bindForms [] names values)
  | .define frame name value => Run.defineForm frame name value
  | .update frame entries => entries.forM fun entry => Run.defineForm frame entry.1 entry.2

/-- The state after steps, the failing ones included. -/
def after : List FrameStep → State → State
  | [], s => s
  | step :: steps, s => after steps (step.run s).state

/-- Whether a step is about frames that there are. -/
def Fits (count : Nat) : FrameStep → Prop
  | .create outer _ _ => ∀ id ∈ outer, id < count
  | .define frame _ _ => frame < count
  | .update frame _ => frame < count

instance (count : Nat) : ∀ step : FrameStep, Decidable (step.Fits count)
  | .create outer _ _ => inferInstanceAs (Decidable (∀ id ∈ outer, id < count))
  | .define frame _ _ => inferInstanceAs (Decidable (frame < count))
  | .update frame _ => inferInstanceAs (Decidable (frame < count))

end FrameStep

/-! ## Histories -/

/-- A binding that was made in a frame. -/
structure Made where
  frame : FrameId
  name : String
  value : Value

/-- The past of a forest: the frame around each frame, in the order in which they were made, and all bindings that
were ever made, the latest one first. -/
structure Past where
  outers : List (Option FrameId)
  made : List Made

namespace FrameStep

/-- The names of a new frame with their values, in order; none if these do not fit each other. The name after the
rest mark gets a list of all values that are left. -/
def paired? : (names values : List Value) → Option (List (String × Value))
  | [], [] => some []
  | [], _ :: _ => none
  | .symbol name :: names, values =>
    if isRestMark (.symbol name) then
      match names with
      | .symbol rest :: _ => some [(rest, .ofList values)]
      | _ => none
    else
      match values with
      | [] => none
      | value :: values => (paired? names values).map ((name, value) :: ·)
  | _ :: _, _ => none

/-- The bindings that are made one after the other, up to the first whose name is no symbol. -/
def madeBy (frame : FrameId) : List (Value × Value) → List Made
  | (.symbol name, value) :: entries => ⟨frame, name, value⟩ :: madeBy frame entries
  | _ => []

theorem madeBy_of_ne {name : Value} (h : ∀ text, name ≠ .symbol text) (frame : FrameId) (value : Value)
    (entries : List (Value × Value)) : madeBy frame ((name, value) :: entries) = [] := by
  cases name with
  | symbol text => exact absurd rfl (h text)
  | _ => rfl

/-- What a step adds to the past. A frame whose names and values do not fit is not made. -/
def addTo (past : Past) : FrameStep → Past
  | .create outer names values =>
    match paired? names values with
    | none => past
    | some pairs =>
      ⟨past.outers ++ [outer],
        (pairs.map fun pair => ⟨past.outers.length, pair.1, pair.2⟩).reverse ++ past.made⟩
  | .define frame name value => ⟨past.outers, (madeBy frame [(name, value)]).reverse ++ past.made⟩
  | .update frame entries => ⟨past.outers, (madeBy frame entries).reverse ++ past.made⟩

end FrameStep

namespace Past

def empty : Past := ⟨[], []⟩

/-- The past after steps. -/
def extend (past : Past) (steps : List FrameStep) : Past := steps.foldl FrameStep.addTo past

/-- Whether every step is about frames that there are by then. -/
def Admits (past : Past) : List FrameStep → Prop
  | [] => True
  | step :: steps => step.Fits past.outers.length ∧ Admits (step.addTo past) steps

def decidableAdmits : (past : Past) → (steps : List FrameStep) → Decidable (past.Admits steps)
  | _, [] => isTrue trivial
  | past, step :: steps =>
    have := decidableAdmits (step.addTo past) steps
    inferInstanceAs (Decidable (step.Fits past.outers.length ∧ Admits (step.addTo past) steps))

instance (past : Past) (steps : List FrameStep) : Decidable (past.Admits steps) := decidableAdmits past steps

/-- Whether a frame ever bound a name. -/
def Binds (past : Past) (frame : FrameId) (name : String) : Prop := ∃ value, ⟨frame, name, value⟩ ∈ past.made

/-- The value that a frame bound a name to last. -/
def latest? (past : Past) (frame : FrameId) (name : String) : Option Value :=
  (past.made.find? fun made => made.frame == frame && made.name == name).map (·.value)

/-- The frames from one outwards, up to one that was made alone. -/
inductive Way (past : Past) : FrameId → List FrameId → Prop where
  | last {id : FrameId} : past.outers[id]? = some none → Way past id [id]
  | next {id outer : FrameId} {way : List FrameId} :
    past.outers[id]? = some (some outer) → Way past outer way → Way past id (id :: way)

/-- Whether a frame is the nearest one on a way that ever bound a name. -/
def Nearest (past : Past) (way : List FrameId) (name : String) (frame : FrameId) : Prop :=
  ∃ near far, way = near ++ frame :: far ∧ (∀ id ∈ near, ¬ past.Binds id name) ∧ past.Binds frame name

theorem latest?_eq_none_iff {past : Past} {frame : FrameId} {name : String} :
    past.latest? frame name = none ↔ ¬ past.Binds frame name := by
  rw [latest?, Option.map_eq_none_iff, List.find?_eq_none]
  constructor
  · rintro h ⟨value, hmade⟩
    exact h _ hmade (by simp)
  · rintro h ⟨frame', name', value⟩ hmade hsame
    obtain ⟨rfl, rfl⟩ : frame' = frame ∧ name' = name := by simpa using hsame
    exact h ⟨value, hmade⟩

end Past

/-! ## One step -/

section BindForms

variable (bindings : Bindings) {form : Value}

/-- After the rest mark, a name takes all values that are left. -/
theorem bindForms_mark (h : isRestMark form = true) (names values : List Value) :
    bindForms bindings (form :: names) values = match names with
      | [] => Run.fail .restNameMissing
      | rest :: _ => bindings.bindForm rest (.ofList values) := by
  rw [bindForms.eq_def]
  exact if_pos h

theorem bindForms_value (h : ¬isRestMark form = true) (names : List Value) (value : Value) (values : List Value) :
    bindForms bindings (form :: names) (value :: values) =
      bindings.bindForm form value >>= fun bindings => bindForms bindings names values := by
  rw [bindForms.eq_def]
  exact if_neg h

/-- Without a value for a name, nothing is bound. -/
theorem bindForms_refuses (h : ¬isRestMark form = true) (names : List Value) :
    (bindForms bindings (form :: names) []).Refuses := by
  rw [bindForms.eq_def]
  refine Eq.mpr (congrArg _ (if_neg h)) ?_
  exact .bind (.mapM .parameterLabel _) fun _ => .fail _

theorem defineForm_refuses {name : Value} (h : ∀ text, name ≠ .symbol text) (frame : FrameId) (value : Value) :
    (Run.defineForm frame name value).Refuses := by
  cases name with
  | symbol text => exact absurd rfl (h text)
  | _ => exact .failInspecting _ _

theorem bindForm_refuses {name : Value} (h : ∀ text, name ≠ .symbol text) (value : Value) :
    (bindings.bindForm name value).Refuses := by
  cases name with
  | symbol text => exact absurd rfl (h text)
  | _ => exact .failInspecting _ _

end BindForms

/-- Binding names comes to what they pair with. -/
theorem bindForms_of_paired? {names values : List Value} {pairs : List (String × Value)}
    (h : FrameStep.paired? names values = some pairs) (bindings : Bindings) :
    bindForms bindings names values = pure (bindings.bindAll pairs) := by
  fun_induction FrameStep.paired? names values generalizing bindings pairs with
  | case1 =>
    cases h
    rfl
  | case3 name values hmark rest names =>
    cases h
    exact bindForms_mark bindings hmark _ values
  | case6 name names hmark value values ih =>
    obtain ⟨pairs, hpairs, rfl⟩ := Option.map_eq_some_iff.1 h
    exact (bindForms_value bindings hmark names value values).trans (ih hpairs (bindings.bind name value))
  | _ => cases h

/-- Names that pair with nothing are not bound at all. -/
theorem bindForms_of_paired?_none {names values : List Value} (h : FrameStep.paired? names values = none)
    (bindings : Bindings) : (bindForms bindings names values).Refuses := by
  fun_induction FrameStep.paired? names values generalizing bindings with
  | case1 | case3 => cases h
  | case2 value values => exact .bind (.mapM .inspected _) fun _ => .fail _
  | case4 name names values hmark hrest =>
    rw [bindForms_mark bindings hmark]
    cases names with
    | nil => exact .fail _
    | cons rest names => exact bindForm_refuses bindings (fun text heq => hrest text names (heq ▸ rfl)) _
  | case5 name names hmark => exact bindForms_refuses bindings hmark names
  | case6 name names hmark value values ih =>
    rw [bindForms_value bindings hmark]
    exact ih (Option.map_eq_none_iff.1 h) (bindings.bind name value)
  | case7 values form names hform =>
    have hmark : ¬isRestMark form = true := by
      cases form with
      | symbol name => exact absurd rfl (hform name)
      | _ => exact Bool.false_ne_true
    cases values with
    | nil => exact bindForms_refuses bindings hmark names
    | cons value values =>
      rw [bindForms_value bindings hmark]
      exact (bindForm_refuses bindings hform value).bind_left _

/-- What is known of a state by its past. -/
structure State.Reflects (s : State) (past : Past) : Prop where
  outer : ∀ id : FrameId, s.frames[id]?.map (·.outer) = past.outers[id]?
  /-- A frame is older than those made inside of it. -/
  older : ∀ id outer : FrameId, past.outers[id]? = some (some outer) → outer < id
  latest : ∀ (id : FrameId) (name : String), (s.frames[id]?.bind (·.bindings.find? name)) = past.latest? id name

namespace State.Reflects

variable {s : State} {past : Past}

theorem size_eq (h : s.Reflects past) : s.frames.size = past.outers.length := by
  refine Nat.le_antisymm (Nat.not_lt.1 fun hlt => ?_) (Nat.not_lt.1 fun hlt => ?_)
  · have hnone := h.outer past.outers.length
    rw [Array.getElem?_eq_getElem hlt, List.getElem?_eq_none (Nat.le_refl _)] at hnone
    cases hnone
  · have hnone := h.outer s.frames.size
    rw [Array.getElem?_eq_none (Nat.le_refl _), List.getElem?_eq_getElem hlt] at hnone
    cases hnone

theorem empty (h : s.frames = #[]) : s.Reflects .empty where
  outer id := by rw [h]; rfl
  older id outer houter := by cases houter
  latest id name := by rw [h]; rfl

theorem define (h : s.Reflects past) {frame : FrameId} (hframe : frame < past.outers.length) (name : String)
    (value : Value) : (s.define frame name value).Reflects ⟨past.outers, ⟨frame, name, value⟩ :: past.made⟩ where
  outer id := by
    rw [← h.outer id, State.define, Array.getElem?_modify]
    split
    · rw [Option.map_map]
      rfl
    · rfl
  older := h.older
  latest id other := by
    rw [State.define, Array.getElem?_modify, Past.latest?, List.find?_cons]
    have hold := h.latest id other
    by_cases hid : frame = id
    · obtain ⟨old, hframe⟩ : ∃ old, s.frames[id]? = some old :=
        ⟨_, Array.getElem?_eq_getElem (hid ▸ h.size_eq ▸ hframe)⟩
      rw [hframe] at hold ⊢
      simp only [hid, if_true, Option.map_some, Option.bind_some, Bindings.find?_bind, beq_self_eq_true,
        Bool.true_and] at hold ⊢
      cases name == other with
      | true => rfl
      | false => exact hold
    · rw [if_neg hid, hold, beq_false_of_ne hid]
      rfl

/-- Definitions in a row come to all bindings up to the first whose name is no symbol. -/
theorem defineAll (h : s.Reflects past) {frame : FrameId} (hframe : frame < past.outers.length)
    (entries : List (Value × Value)) :
    ((entries.forM fun entry => Run.defineForm frame entry.1 entry.2) s).state.Reflects
      ⟨past.outers, (FrameStep.madeBy frame entries).reverse ++ past.made⟩ := by
  induction entries generalizing s past with
  | nil => exact h
  | cons entry entries ih =>
    obtain ⟨name, value⟩ := entry
    show ((Run.defineForm frame name value >>= fun _ => entries.forM fun entry => Run.defineForm frame entry.1 entry.2)
      s).state.Reflects _
    by_cases hname : ∃ text, name = .symbol text
    · obtain ⟨text, rfl⟩ := hname
      rw [FrameStep.madeBy, List.reverse_cons, List.append_assoc]
      exact ih (h.define hframe text value) hframe
    · have hname : ∀ text, name ≠ .symbol text := fun text heq => hname ⟨text, heq⟩
      obtain ⟨fault, hfault⟩ := (defineForm_refuses hname frame value).bind_left
        (fun _ => entries.forM fun entry => Run.defineForm frame entry.1 entry.2) s
      rw [hfault, FrameStep.madeBy_of_ne hname]
      exact h

/-- A frame that is made binds what its names pair with. -/
theorem addFrame (h : s.Reflects past) {outer : Option FrameId} (houter : ∀ id ∈ outer, id < past.outers.length)
    (pairs : List (String × Value)) : (s.addFrame ⟨outer, Bindings.bindAll [] pairs⟩).Reflects
      ⟨past.outers ++ [outer],
        (pairs.map fun pair => ⟨past.outers.length, pair.1, pair.2⟩).reverse ++ past.made⟩ where
  outer id := by
    rw [State.addFrame, Array.getElem?_push, h.size_eq]
    split
    · next hid => rw [hid, List.getElem?_append_right (Nat.le_refl _), Nat.sub_self]; rfl
    · next hid =>
      rw [h.outer id]
      rcases Nat.lt_or_gt_of_ne hid with hlt | hgt
      · rw [List.getElem?_append_left hlt]
      · rw [List.getElem?_eq_none (Nat.le_of_lt hgt), List.getElem?_eq_none]
        rw [List.length_append]
        exact hgt
  older id other hother := by
    rcases Nat.lt_or_ge id past.outers.length with hlt | hge
    · rw [List.getElem?_append_left hlt] at hother
      exact h.older id other hother
    · rw [List.getElem?_append_right hge] at hother
      have hlast : outer = some other := by
        cases hsub : id - past.outers.length with
        | zero => rw [hsub] at hother; exact Option.some.inj hother
        | succ n => rw [hsub] at hother; cases hother
      exact Nat.lt_of_lt_of_le (houter other (hlast ▸ rfl)) hge
  latest id name := by
    rw [State.addFrame, Array.getElem?_push, h.size_eq, Past.latest?, List.find?_append, ← List.map_reverse,
      List.find?_map]
    have hold := h.latest id name
    split
    · next hid =>
      -- nothing was bound before in a frame that there was not
      rw [hid, Array.getElem?_eq_none (Nat.le_of_eq h.size_eq), Past.latest?] at hold
      rw [hid, Option.bind_some, Bindings.find?_bindAll, Option.map_or, ← hold, Option.map_map]
      simp only [Function.comp_def, beq_self_eq_true, Bool.true_and]
      rfl
    · next hid =>
      have hother : (past.outers.length == id) = false := beq_false_of_ne (Ne.symm hid)
      have hnone : pairs.reverse.find? ((fun made : Made => made.frame == id && made.name == name) ∘
          fun pair => ⟨past.outers.length, pair.1, pair.2⟩) = none := by
        rw [List.find?_eq_none]
        simp [hother]
      rw [hold, Past.latest?, hnone]
      rfl

end State.Reflects

/-- What a step does to a forest is what it adds to the past. -/
theorem FrameStep.reflects {s : State} {past : Past} (h : s.Reflects past) :
    ∀ step : FrameStep, step.Fits past.outers.length → (step.run s).state.Reflects (step.addTo past)
  | .create outer names values, hfits => by
    rw [run, addTo]
    cases hpaired : paired? names values with
    | none =>
      obtain ⟨fault, hfault⟩ := (bindForms_of_paired?_none hpaired []).bind_left
        (fun bindings => do let _ ← Run.newFrame outer bindings) s
      rw [hfault]
      exact h
    | some pairs =>
      rw [bindForms_of_paired? hpaired]
      exact h.addFrame hfits pairs
  | .define frame name value, hfits => by
    have hone : ([(name, value)].forM fun entry => Run.defineForm frame entry.1 entry.2) =
        Run.defineForm frame name value := bind_pure_unit
    have hdefine := h.defineAll hfits [(name, value)]
    rwa [hone] at hdefine
  | .update _ entries, hfits => h.defineAll hfits entries

theorem FrameStep.reflects_after {s : State} {past : Past} {steps : List FrameStep} (h : s.Reflects past)
    (hadmits : past.Admits steps) : (after steps s).Reflects (past.extend steps) := by
  induction steps generalizing s past with
  | nil => exact h
  | cons step steps ih => exact ih (reflects h step hadmits.1) hadmits.2

/-! ## Answers -/

namespace Past

variable {past : Past}

theorem Way.unique {id : FrameId} {way way' : List FrameId} (h : past.Way id way) (h' : past.Way id way') :
    way = way' := by
  induction h generalizing way' with
  | last houter =>
    cases h' with
    | last _ => rfl
    | next houter' _ => cases houter.symm.trans houter'
  | next houter _ ih =>
    cases h' with
    | last houter' => cases houter.symm.trans houter'
    | next houter' h' =>
      cases houter.symm.trans houter'
      rw [ih h']

/-- The way outward does not depend on what is bound. -/
theorem Way.of_outers {past' : Past} (houters : past'.outers = past.outers) {id : FrameId} {way : List FrameId}
    (h : past.Way id way) : past'.Way id way := by
  induction h with
  | last houter => exact .last (houters ▸ houter)
  | next houter _ ih => exact .next (houters ▸ houter) ih

/-- What a name stands for by the past, with the frame that binds it. -/
def answer? (past : Past) (way : List FrameId) (name : String) : Option (FrameId × Value) :=
  way.findSome? fun id => (past.latest? id name).map fun value => (id, value)

theorem answer?_eq_some_iff {way : List FrameId} {name : String} {scope : FrameId} {value : Value} :
    past.answer? way name = some (scope, value) ↔
      past.Nearest way name scope ∧ past.latest? scope name = some value := by
  rw [answer?, List.findSome?_eq_some_iff]
  constructor
  · rintro ⟨near, id, far, hway, hlatest, hnear⟩
    obtain ⟨value, hvalue, heq⟩ := Option.map_eq_some_iff.1 hlatest
    cases heq
    refine ⟨⟨near, far, hway, fun id hid => ?_, ?_⟩, hvalue⟩
    · exact latest?_eq_none_iff.1 (Option.map_eq_none_iff.1 (hnear id hid))
    · refine Classical.not_not.1 fun hbinds => ?_
      rw [latest?_eq_none_iff.2 hbinds] at hvalue
      cases hvalue
  · rintro ⟨⟨near, far, hway, hnear, -⟩, hvalue⟩
    refine ⟨near, scope, far, hway, by rw [hvalue]; rfl, fun id hid => ?_⟩
    rw [latest?_eq_none_iff.2 (hnear id hid)]
    rfl

theorem answer?_append (near far : List FrameId) (name : String) :
    past.answer? (near ++ far) name = (past.answer? near name).or (past.answer? far name) := List.findSome?_append

theorem answer?_eq_none_iff {way : List FrameId} {name : String} :
    past.answer? way name = none ↔ ∀ id ∈ way, ¬ past.Binds id name := by
  rw [answer?, List.findSome?_eq_none_iff]
  simp only [Option.map_eq_none_iff, latest?_eq_none_iff]

theorem Nearest.latest {way : List FrameId} {name : String} {scope : FrameId} (h : past.Nearest way name scope) :
    ∃ value, past.latest? scope name = some value := by
  obtain ⟨-, -, -, -, hbinds⟩ := h
  exact Option.ne_none_iff_exists'.1 fun hnone => latest?_eq_none_iff.1 hnone hbinds

/-- Two pasts that know the same of a name in each frame on the way give the same answer. -/
theorem answer?_congr {past' : Past} {way : List FrameId} {name : String}
    (h : ∀ id ∈ way, past'.latest? id name = past.latest? id name) :
    past'.answer? way name = past.answer? way name := by
  rw [answer?, answer?]
  induction way with
  | nil => rfl
  | cons id way ih =>
    rw [List.findSome?_cons, List.findSome?_cons, h id List.mem_cons_self,
      ih fun id hid => h id (List.mem_cons_of_mem _ hid)]

end Past

namespace State.Reflects

variable {s : State} {past : Past}

theorem way_chainWithin (h : s.Reflects past) {steps : Nat} {id : FrameId} (hsteps : id < steps)
    (hid : id < past.outers.length) : past.Way id (s.chainWithin steps id) := by
  induction steps generalizing id with
  | zero => exact absurd hsteps (Nat.not_lt_zero id)
  | succ steps ih =>
    obtain ⟨⟨outer?, bindings⟩, hframe⟩ : ∃ frame, s.frames[id]? = some frame :=
      ⟨_, Array.getElem?_eq_getElem (h.size_eq ▸ hid)⟩
    have houter := h.outer id
    rw [hframe] at houter
    rw [State.chainWithin, hframe]
    cases outer? with
    | none => exact .last houter.symm
    | some outer =>
      -- the frame around it is older, so it takes fewer steps from there
      have hlt := h.older id outer houter.symm
      exact .next houter.symm (ih (Nat.lt_of_lt_of_le hlt (Nat.le_of_lt_succ hsteps)) (Nat.lt_trans hlt hid))

theorem way_chain (h : s.Reflects past) {id : FrameId} (hid : id < past.outers.length) :
    past.Way id (s.chain id) := h.way_chainWithin (Nat.lt_succ_self id) hid

/-- What a name stands for is told by the past. -/
theorem resolve?_eq (h : s.Reflects past) {id : FrameId} {way : List FrameId} (hway : past.Way id way)
    (name : String) : s.resolve? id name = past.answer? way name := by
  have hid : id < past.outers.length := by
    cases hway with
    | last houter => exact (List.getElem?_eq_some_iff.1 houter).1
    | next houter _ => exact (List.getElem?_eq_some_iff.1 houter).1
  rw [resolve?_eq_findSome?, hway.unique (h.way_chain hid), Past.answer?]
  congr 1
  funext id
  rw [State.bindingAt, h.latest]

end State.Reflects

namespace Past

theorem latest?_cons (past : Past) (made : Made) (frame : FrameId) (name : String) :
    (⟨past.outers, made :: past.made⟩ : Past).latest? frame name =
      if made.frame = frame ∧ made.name = name then some made.value else past.latest? frame name := by
  rw [latest?, List.find?_cons]
  split
  · next hsame => rw [if_pos (by simpa using hsame), Option.map_some]
  · next hother => rw [if_neg (by simpa using hother), latest?]

/-- A definition changes what a name stands for only where it is the defined name, the frame is on the way, and no
nearer frame binds the name. -/
theorem answer?_define {past : Past} {way : List FrameId} {scope : FrameId} {form value : Value} {name : String}
    (h : (FrameStep.addTo past (.define scope form value)).answer? way name ≠ past.answer? way name) :
    form = .symbol name ∧ ∃ near far, way = near ++ scope :: far ∧ ∀ id ∈ near, ¬ past.Binds id name := by
  by_cases hform : ∃ text, form = .symbol text
  case neg =>
    rw [FrameStep.addTo, FrameStep.madeBy_of_ne fun text heq => hform ⟨text, heq⟩] at h
    exact absurd rfl h
  obtain ⟨text, rfl⟩ := hform
  replace h : (⟨past.outers, ⟨scope, text, value⟩ :: past.made⟩ : Past).answer? way name ≠ past.answer? way name := h
  have htext : text = name := by
    refine Classical.not_not.1 fun hne => h (answer?_congr fun id _ => ?_)
    rw [latest?_cons, if_neg fun hsame => hne hsame.2]
  have hscope : scope ∈ way := by
    refine Classical.not_not.1 fun hnot => h (answer?_congr fun id hid => ?_)
    have hne : scope ≠ id := fun heq => hnot (heq ▸ hid)
    rw [latest?_cons, if_neg fun hsame => hne hsame.1]
  obtain ⟨near, far, rfl, hfirst⟩ := List.eq_append_cons_of_mem hscope
  refine ⟨congrArg _ htext, near, far, rfl, Classical.not_not.1 fun hbinds => h ?_⟩
  -- if a nearer frame binds the name, that frame answers before and after
  have hnear : (⟨past.outers, ⟨scope, text, value⟩ :: past.made⟩ : Past).answer? near name = past.answer? near name :=
    answer?_congr fun id hid => by
      have hne : scope ≠ id := fun heq => hfirst (heq ▸ hid)
      rw [latest?_cons, if_neg fun hsame => hne hsame.1]
  rw [answer?_append, answer?_append, hnear]
  cases hanswer : past.answer? near name with
  | none => exact absurd (answer?_eq_none_iff.1 hanswer) hbinds
  | some answer => rfl

end Past

/-! ## Main statement -/

/-- The names of a forest answer by its past. -/
structure State.Answers (s : State) (past : Past) : Prop where
  size_eq : s.frames.size = past.outers.length
  /-- From every frame there is a way outward. -/
  way : ∀ frame < past.outers.length, ∃ way, past.Way frame way
  value_iff : ∀ {frame way}, past.Way frame way → ∀ name value, Run.lookup frame name s = .value value s ↔
    ∃ scope, past.Nearest way name scope ∧ past.latest? scope name = some value
  unbound_iff : ∀ {frame way}, past.Way frame way → ∀ name,
    Run.lookup frame name s = .fault (.unbound name) s ↔ ∀ id ∈ way, ¬ past.Binds id name
  find_iff : ∀ {frame way}, past.Way frame way → ∀ name scope,
    s.find? frame name = some scope ↔ past.Nearest way name scope
  get_eq : ∀ {frame way}, past.Way frame way → ∀ name,
    s.get? frame name = (s.find? frame name).bind (past.latest? · name)
  /-- A further definition changes what a name stands for only where it is the defined name, the frame of the
  definition is on the way, and no nearer frame binds the name. -/
  define : ∀ {frame way}, past.Way frame way → ∀ name, ∀ scope < past.outers.length, ∀ form value,
    (Run.defineForm scope form value s).state.resolve? frame name ≠ s.resolve? frame name →
      form = .symbol name ∧ ∃ near far, way = near ++ scope :: far ∧ ∀ id ∈ near, ¬ past.Binds id name
  /-- A definition of what is no symbol fails, and the state stays as it is. -/
  refused : ∀ scope form value, (∀ name, form ≠ .symbol name) → ∃ fault,
    Run.defineForm scope form value s = .fault fault s ∧
      ∀ shown, form.inspect s.cells = .ok shown → fault = .kind (.undefinable shown)

theorem Run.defineForm_of_ne {form : Value} (h : ∀ name, form ≠ .symbol name) (frame : FrameId) (value : Value) :
    Run.defineForm frame form value = Run.failInspecting form .undefinable := by
  cases form with
  | symbol name => exact absurd rfl (h name)
  | _ => rfl

namespace State.Reflects

variable {s : State} {past : Past} (h : s.Reflects past)
include h

theorem answers : s.Answers past where
  size_eq := h.size_eq
  way frame hframe := ⟨_, h.way_chain hframe⟩
  value_iff hway name value := by
    simp only [← Past.answer?_eq_some_iff, Run.lookup, State.get?, h.resolve?_eq hway]
    cases past.answer? _ name with
    | none => simp
    | some answer => simp [Prod.ext_iff]
  unbound_iff hway name := by
    rw [Run.lookup, State.get?, h.resolve?_eq hway, ← Past.answer?_eq_none_iff]
    cases past.answer? _ name with
    | none => simp
    | some answer => simp
  find_iff hway name scope := by
    rw [State.find?, h.resolve?_eq hway, Option.map_eq_some_iff]
    constructor
    · rintro ⟨⟨_, value⟩, hanswer, rfl⟩
      exact (Past.answer?_eq_some_iff.1 hanswer).1
    · intro hnearest
      obtain ⟨value, hvalue⟩ := hnearest.latest
      exact ⟨(scope, value), Past.answer?_eq_some_iff.2 ⟨hnearest, hvalue⟩, rfl⟩
  get_eq hway name := by
    rw [State.get?, State.find?, h.resolve?_eq hway]
    cases hanswer : past.answer? _ name with
    | none => rfl
    | some answer => exact (Past.answer?_eq_some_iff.1 hanswer).2.symm
  define {frame way} hway name scope hscope form value hne := by
    have hthen : (Run.defineForm scope form value s).state.Reflects (FrameStep.addTo past (.define scope form value)) :=
      FrameStep.reflects h (.define scope form value) hscope
    have houters : (FrameStep.addTo past (.define scope form value)).outers = past.outers := rfl
    rw [h.resolve?_eq hway, hthen.resolve?_eq (hway.of_outers houters)] at hne
    exact Past.answer?_define hne
  refused scope form value hform := by
    rw [Run.defineForm_of_ne hform, Run.failInspecting, Run.bind_apply, Run.inspected, Run.ask]
    cases form.inspect s.cells with
    | error fault => exact ⟨fault, rfl, fun _ h => by cases h⟩
    | ok shown => exact ⟨_, rfl, fun _ h => by cases h; rfl⟩

end State.Reflects

/-- What a name stands for after a history of steps, failing ones included, is told by the history alone: the latest
binding in the nearest frame outward that ever bound the name counts. -/
theorem lookup_history {s : State} (hs : s.frames = #[]) {steps : List FrameStep}
    (hadmits : Past.empty.Admits steps) : (FrameStep.after steps s).Answers (Past.empty.extend steps) :=
  (FrameStep.reflects_after (.empty hs) hadmits).answers

/-- A history in which two frames share the one around them, one of them shadows its name, and three steps fail. -/
def FrameStep.shadowing : List FrameStep := [
  .create none [.symbol "x"] [.int 1],
  .create (some 0) [.symbol "&", .symbol "rest"] [.int 2, .int 3],
  .create (some 0) [.symbol "y"] [],
  .create (some 0) [] [],
  .define 1 (.symbol "x") (.int 10),
  .define 0 .nil (.int 5),
  .define 0 (.symbol "z") (.int 5),
  .update 0 [(.symbol "x", .int 11), (.nil, .int 5), (.symbol "w", .int 6)]]

/-- From the frame that shadows the name it stands for the value there, from the other one for the latest value of
the outer frame; what was to be bound after a failure is not bound. -/
theorem lookup_history_shadowing :
    let empty : State := ⟨#[], #[], "", "", [], true, .tree [], 0, 0⟩
    let now := FrameStep.after FrameStep.shadowing empty
    now.Answers (Past.empty.extend FrameStep.shadowing) ∧
      Run.lookup 1 "x" now = .value (.int 10) now ∧ Run.lookup 2 "x" now = .value (.int 11) now ∧
      now.find? 1 "z" = some 0 ∧ Run.lookup 1 "rest" now = .value (.ofList [.int 2, .int 3]) now ∧
      Run.lookup 1 "w" now = .fault (.unbound "w") now := by
  intro empty now
  have h : now.Answers (Past.empty.extend FrameStep.shadowing) := lookup_history rfl (by decide)
  have hinner : (Past.empty.extend FrameStep.shadowing).Way 1 [1, 0] := .next rfl (.last rfl)
  have hother : (Past.empty.extend FrameStep.shadowing).Way 2 [2, 0] := .next rfl (.last rfl)
  have hz : (Past.empty.extend FrameStep.shadowing).answer? [1, 0] "z" = some (0, .int 5) := rfl
  refine ⟨h, (h.value_iff hinner _ _).2 ⟨1, ?_⟩, (h.value_iff hother _ _).2 ⟨0, ?_⟩,
    (h.find_iff hinner _ _).2 (Past.answer?_eq_some_iff.1 hz).1, (h.value_iff hinner _ _).2 ⟨1, ?_⟩,
    (h.unbound_iff hinner _).2 (Past.answer?_eq_none_iff.1 rfl)⟩
  · exact Past.answer?_eq_some_iff.1 rfl
  · exact Past.answer?_eq_some_iff.1 rfl
  · exact Past.answer?_eq_some_iff.1 rfl

end SmallLisp
