/-
Lookups that are up to identity. A map finds a key that is the same object as the one looked up before it compares any
two. This makes a difference for elusive keys only, which are not equal to themselves, and only where two of them meet
(`Value.sameKey_of_same`). Since values have no identity here, what comes of such a meeting is a parameter
(`evaluateDeciding`). An evaluation that comes to the same whatever it is, is free of identity, and so are those that it
is alike to (`freeOfIdentity_of_alike`).
-/
import SmallLisp.Proofs.Evaluation.Compositional
import SmallLisp.Proofs.Evaluation.Likeness

namespace SmallLisp

open Run (ShortOf shortOf_compositional)

/-! ## Elusive keys -/

namespace Value

/-- Whether a value passes the check for keys, but is not equal to itself: there is a function in it, or a number that
equals none. -/
def isElusive (v : Value) : Bool := !v.isFunction && v.isImmutable && !v.sameKey v

/-- If the test for equality is preceded by one for identity, then this one decides about elusive keys alone. -/
theorem sameKey_of_same {same : Value → Value → Bool} (hsame : ∀ v w, same v w → v = w) {key other : Value}
    (hkey : key.Admissible) (h : key.isElusive = false ∨ other.isElusive = false) :
    (same key other || key.sameKey other) = key.sameKey other := by
  cases hidentical : same key other with
  | false => rfl
  | true =>
    obtain rfl := hsame key other hidentical
    have hself : key.isElusive = false := h.elim id id
    simpa [isElusive, hkey.no_function, hkey.no_cell] using hself.symm

mutual

/-- Whether a map with an elusive key is in a value, given whether one is in the content of a cell. -/
def hasElusiveWith (cells : CellId → Bool) : Value → Bool
  | .list items _ => anyHasElusiveWith cells items
  | .vector items _ => anyHasElusiveWith cells items
  | .map entries _ => entriesHaveElusiveWith cells entries
  | .cell id => cells id
  | _ => false
termination_by structural v => v

def anyHasElusiveWith (cells : CellId → Bool) : List Value → Bool
  | [] => false
  | v :: vs => hasElusiveWith cells v || anyHasElusiveWith cells vs
termination_by structural vs => vs

def entriesHaveElusiveWith (cells : CellId → Bool) : List (Value × Value) → Bool
  | [] => false
  | (k, v) :: entries => k.isElusive || hasElusiveWith cells v || entriesHaveElusiveWith cells entries
termination_by structural entries => entries

end

/-- The same for the content of a cell, looking through at most `depth` cells. -/
def cellsHaveElusive (cells : Array Value) : (depth : Nat) → CellId → Bool
  | 0, _ => false
  | depth + 1, id => hasElusiveWith (cellsHaveElusive cells depth) (cells.getD id .nil)

/-- Whether a map with an elusive key is in a value over a store of cells. -/
def hasElusive (cells : Array Value) (v : Value) : Bool := hasElusiveWith (cellsHaveElusive cells cells.size) v

/-- The keys of a map. -/
def keys : Value → List Value
  | .map entries _ => entries.map (·.1)
  | _ => []

end Value

/-- Whether two elusive keys are in a row. -/
def crowded (keys : List Value) : Bool := 2 ≤ keys.countP (·.isElusive)

/-- Whether what a primitive comes to is up to identity: two elusive keys meet when it looks for keys, or when it
compares maps. -/
def Primitive.isUpToIdentity (cells : Array Value) : Primitive → List Value → Bool
  | .equals, v :: vs => v.hasElusive cells && vs.any (·.hasElusive cells)
  | .hashMap, args => crowded ((Entries.pairs args).map (·.1))
  | .assoc, v :: args => crowded ((Entries.pairs args).map (·.1)) ||
    v.keys.any (·.isElusive) && ((Entries.pairs args).map (·.1)).any (·.isElusive)
  | .dissoc, v :: args | .get, v :: args | .contains, v :: args => v.keys.any (·.isElusive) && args.any (·.isElusive)
  | _, _ => false

/-! ## Evaluators that decide -/

/-- What comes of primitives and of map literals, where that is up to identity. -/
structure Deciding where
  run : Evaluator → Runner
  build : Entries → Run Value

namespace Deciding

def runs (d : Deciding) (eval : Evaluator) : Runner := fun call p frame args s =>
  if p.isUpToIdentity s.cells args then d.run eval call p frame args s else p.run eval call frame args s

def builds (d : Deciding) (entries : Entries) : Run Value :=
  if crowded (entries.map (·.1)) then d.build entries else pure (.ofEntries (Entries.ofList entries))

def plain (d : Deciding) (eval : Evaluator) (form : Value) (frame : FrameId) : Run Value :=
  match form with
  | .map forms _ => do d.builds (← evalEntries eval frame forms)
  | form => evalPlain eval form frame

/-- Nothing comes of what is up to identity. -/
def halting (need : Need) : Deciding := ⟨fun _ _ _ _ _ => Run.halt need, fun _ => Run.halt need⟩

/-- Keys are the same only if they are equal. -/
def byEquality : Deciding := ⟨Primitive.run, fun entries => pure (.ofEntries (Entries.ofList entries))⟩

theorem runs_byEquality : byEquality.runs = Primitive.run := by
  funext eval call p frame args s
  exact ite_self _

theorem plain_byEquality : byEquality.plain = evalPlain := by
  have hbuilds : byEquality.builds = fun entries => pure (.ofEntries (Entries.ofList entries)) := by
    funext entries
    exact ite_self _
  funext eval form frame
  unfold plain
  rw [hbuilds]
  cases form <;> rfl

end Deciding

/-- The evaluator, with what comes of lookups that are up to identity. -/
def evaluateDeciding (d : Deciding) : (steps : Nat) → Evaluator := evaluateWith d.plain d.runs

theorem evaluateDeciding_byEquality (steps : Nat) : evaluateDeciding .byEquality steps = evaluate steps := by
  rw [evaluateDeciding, Deciding.plain_byEquality, Deciding.runs_byEquality, evaluateWith_eq_evaluate]

/-- Evaluators that decide pass a judgement on to forms that are no lists, if the maps that they build do. -/
theorem Judgement.plain_holds (J : Judgement) {d d' : Deciding} {eval eval' : Evaluator}
    (hbuilds : ∀ (n : Nat) {as bs : Entries}, List.Forall₂ (fun a b => J.key n a.1 b.1 ∧ J.agree n a.2 b.2) as bs →
      J.Holds n (d.builds as) (d'.builds bs) J.agree)
    (h : J.Evaluates eval eval') : J.Evaluates (d.plain eval) (d'.plain eval') := by
  intro n form form' frame hform hframe
  have hplain := Judgement.evalPlain_holds h n hform hframe
  cases J.corresponds hform with
  | map hforms =>
    exact J.bind (Judgement.evalEntries_holds h n hforms hframe) fun m _ _ _ hentries => hbuilds m hentries
  | _ => exact hplain

/-- Where nothing comes of what is up to identity, an evaluation halts there, or it comes to the same. -/
theorem evaluateDeciding_shortOf (need : Need) (d : Deciding) (steps : Nat) (form : Value) (frame : FrameId) :
    ShortOf need (evaluateDeciding (.halting need) steps form frame) (evaluateDeciding d steps form frame) := by
  have h := shortOf_compositional need
  refine h.of_evaluates (h.judgement.evaluateWith_holds (h.judgement.plain_holds fun n as bs hrow => ?_)
    (fun steps he => ?_) steps) form frame
  · obtain rfl : as = bs := List.forall₂_eq_eq_eq ▸ hrow.imp fun a b hab => Prod.ext hab.1.2 hab.2.2
    refine h.followed ?_ (Agreement.same_self n)
    unfold Deciding.builds
    split
    · exact .halt _
    · exact .refl _
  · intro call call' hc n p isMacro info info' args args' frame _ hargs
    obtain rfl := Agreement.same_each_iff.1 hargs
    refine h.followed (fun s => ?_) (Agreement.same_self n)
    unfold Deciding.runs
    split
    · exact .inr ⟨s, rfl⟩
    · exact h.primitive (h.of_calls hc) (fun form => h.of_evaluates he form rootFrame) p frame args s

/-! ## Evaluations that are free of identity -/

/-- Whether an evaluation comes to the same, whatever comes of what is up to identity. -/
def FreeOfIdentity (form : Value) (frame : FrameId) (s : State) : Prop :=
  ∀ d steps, evaluateDeciding d steps form frame s = evaluate steps form frame s

namespace Likeness

variable {L : Likeness} {n : Nat}

theorem Alike.isElusive_eq {v w : Value} (h : L.Alike n v w) : v.isElusive = w.isElusive := by
  rw [Value.isElusive, Value.isElusive, h.isFunction_eq, h.isImmutable_eq, h.sameKey_eq h]

section Cells

variable (cells : CellId → Bool)

open Value (hasElusiveWith anyHasElusiveWith entriesHaveElusiveWith)

mutual

theorem Alike.hasElusiveWith_eq : ∀ {v w : Value}, L.Alike n v w → hasElusiveWith cells v = hasElusiveWith cells w
  | .nil, _, .nil | .bool _, _, .bool _ | .int _, _, .int _ | .float _, _, .float _ | .str _, _, .str _
  | .symbol _, _, .symbol _ | .keyword _, _, .keyword _ | .cell _, _, .cell _ | .closure .., _, .closure ..
  | .primitive .., _, .primitive .. => rfl
  | .list .., _, .list h _ => AllAlike.anyHasElusiveWith_eq h
  | .vector .., _, .vector h _ => AllAlike.anyHasElusiveWith_eq h
  | .map .., _, h@(.map ..) => EntriesAlike.entriesHaveElusiveWith_eq h.entries

theorem AllAlike.anyHasElusiveWith_eq : ∀ {vs ws : List Value}, L.AllAlike n vs ws →
    anyHasElusiveWith cells vs = anyHasElusiveWith cells ws
  | [], _, .nil => rfl
  | _ :: _, _, .cons h hs => by
    rw [anyHasElusiveWith, anyHasElusiveWith, Alike.hasElusiveWith_eq h, AllAlike.anyHasElusiveWith_eq hs]

theorem EntriesAlike.entriesHaveElusiveWith_eq : ∀ {as bs : List (Value × Value)}, L.EntriesAlike n as bs →
    entriesHaveElusiveWith cells as = entriesHaveElusiveWith cells bs
  | [], _, .nil => rfl
  | (_, _) :: _, (_, _) :: _, .cons h hs => by
    rw [entriesHaveElusiveWith, entriesHaveElusiveWith, Alike.isElusive_eq h.key, Alike.hasElusiveWith_eq h.value,
      EntriesAlike.entriesHaveElusiveWith_eq hs]

end

end Cells

theorem cellsHaveElusive_eq {cells cells' : Array Value} (h : L.CellsAlike n cells cells') (depth : Nat) :
    Value.cellsHaveElusive cells depth = Value.cellsHaveElusive cells' depth := by
  induction depth with
  | zero => rfl
  | succ depth ih =>
    funext id
    rw [Value.cellsHaveElusive, Value.cellsHaveElusive, ih, (h.each id).hasElusiveWith_eq]

theorem Alike.hasElusive_eq {cells cells' : Array Value} (h : L.CellsAlike n cells cells') {v w : Value}
    (hvw : L.Alike n v w) : v.hasElusive cells = w.hasElusive cells' := by
  rw [Value.hasElusive, Value.hasElusive, cellsHaveElusive_eq h, h.size_eq, hvw.hasElusiveWith_eq]

theorem AllAlike.any_eq {f g : Value → Bool} (hfg : ∀ v w, L.Alike n v w → f v = g w) {vs ws : List Value}
    (h : L.AllAlike n vs ws) : vs.any f = ws.any g := by
  induction h with
  | nil => rfl
  | cons hvw _ ih => rw [List.any_cons, List.any_cons, hfg _ _ hvw, ih]

theorem AllAlike.crowded_eq {vs ws : List Value} (h : L.AllAlike n vs ws) : crowded vs = crowded ws := by
  have hcount : vs.countP (·.isElusive) = ws.countP (·.isElusive) := by
    induction h with
    | nil => rfl
    | cons hvw _ ih => rw [List.countP_cons, List.countP_cons, hvw.isElusive_eq, ih]
  rw [crowded, crowded, hcount]

theorem Alike.keys {v w : Value} (h : L.Alike n v w) : L.AllAlike n v.keys w.keys := by
  have hvw := h
  cases h with
  | map => exact hvw.entries.keys
  | _ => exact .nil

/-- Whether two elusive keys meet does not depend on what values that agree may differ in. -/
theorem isUpToIdentity_eq {cells cells' : Array Value} (h : L.CellsAlike n cells cells') (p : Primitive)
    {vs ws : List Value} (hvs : L.AllAlike n vs ws) : p.isUpToIdentity cells vs = p.isUpToIdentity cells' ws := by
  cases hvs with
  | nil => cases p <;> rfl
  | cons hv hrest =>
    have helusive : ∀ {vs ws : List Value}, L.AllAlike n vs ws → vs.any (·.isElusive) = ws.any (·.isElusive) :=
      AllAlike.any_eq fun _ _ => Alike.isElusive_eq
    cases p with
    | equals =>
      simp only [Primitive.isUpToIdentity]
      rw [hv.hasElusive_eq h, AllAlike.any_eq (fun _ _ => Alike.hasElusive_eq h) hrest]
    | hashMap => exact (entriesAlike_pairs (.cons hv hrest)).keys.crowded_eq
    | assoc =>
      have hnew := (entriesAlike_pairs hrest).keys
      simp only [Primitive.isUpToIdentity]
      rw [hnew.crowded_eq, helusive hv.keys, helusive hnew]
    | dissoc | get | contains =>
      simp only [Primitive.isUpToIdentity]
      rw [helusive hv.keys, helusive hrest]
    | _ => rfl

/-- Where nothing comes of what is up to identity, evaluations that are alike halt alike. -/
theorem evaluateDeciding_runsAlike (need : Need) (steps : Nat) :
    L.EvaluatorsAlike (evaluateDeciding (.halting need) steps) (evaluateDeciding (.halting need) steps) := by
  refine L.judgement.evaluateWith_holds (L.judgement.plain_holds fun n as bs hrow => ?_) (fun steps h => ?_) steps
  · have hentries : L.EntriesAlike n as bs := hrow.imp fun _ _ h => ⟨h.1, h.2⟩
    unfold Deciding.builds
    rw [hentries.keys.crowded_eq]
    split
    · exact .halt need _
    · exact .pure (alike_ofEntries hentries.ofList)
  · intro call call' hc n p isMacro info info' args args' frame hp hargs s t hst
    unfold Deciding.runs
    rw [isUpToIdentity_eq hst.cells p hargs]
    split
    · exact ⟨n, Nat.le_refl n, .halted need hst⟩
    · exact primitives_run h hc n p frame hp hargs s t hst

/-- What is alike to an evaluation that is free of identity is free of it, too. -/
theorem freeOfIdentity_of_alike {form form' : Value} {frame : FrameId} {s t : State}
    (hfree : FreeOfIdentity form frame s) (hform : L.Alike n form form') (hframe : L.refers n frame)
    (hst : L.StatesAlike n s t) : FreeOfIdentity form' frame t := by
  intro d steps
  -- something that the evaluation does not halt for want of
  obtain ⟨need, hneed⟩ : ∃ need, ∀ u, evaluate steps form frame s ≠ .halted need u := by
    cases evaluate steps form frame s with
    | value | fault => exact ⟨.steps, nofun⟩
    | halted halted =>
      cases halted with
      | steps => exact ⟨.line, nofun⟩
      | line | file => exact ⟨.steps, nofun⟩
  obtain ⟨m, -, hends⟩ := evaluateDeciding_runsAlike need steps n hform hframe s t hst
  rw [hfree (.halting need) steps] at hends
  have hended : ∀ u, evaluateDeciding (.halting need) steps form' frame t ≠ .halted need u := by
    intro u hu
    rw [hu] at hends
    generalize ho : evaluate steps form frame s = o at hends
    cases hends with
    | halted _ _ => exact hneed _ ho
  have hsame : ∀ d, evaluateDeciding (.halting need) steps form' frame t = evaluateDeciding d steps form' frame t :=
    fun d => (evaluateDeciding_shortOf need d steps form' frame t).resolve_right fun ⟨u, hu⟩ => hended u hu
  rw [← hsame d, hsame .byEquality, evaluateDeciding_byEquality]

end Likeness

end SmallLisp
