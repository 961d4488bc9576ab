/-
Quasiquoted templates. Where `quote`, `cons` and `concat` are the ones that a session starts with, the
code of a regular template comes to what rebuilding the template comes to (`code_codes`): the calls of
primitives that it is made of change nothing and evaluate their arguments in the order of the holes.
Main statement: a template is filled with the values of its holes, or the fault of a hole comes out
(`quasiquote_fills`).
-/
import SmallLisp.Proofs.Template.Rebuild
import SmallLisp.Session

namespace SmallLisp

open Run (Climbs Comes below_continuing comes_congr comes_bind_congr)
open Template

/-! ## Quoted and quasiquoted forms -/

section Unexpanded

variable {s : State} {frame : FrameId} {name : String}

theorem evaluate_quoting (h : ∀ v, s.get? frame "quote" = some v → v.isMacro = false) (steps : Nat) (form : Value) :
    evaluate (steps + 1) (quoting form) frame s = .value form s :=
  evaluate_unexpanded h steps [form] .nil

theorem evaluate_quasiquote (h : ∀ v, s.get? frame "quasiquote" = some v → v.isMacro = false) (steps : Nat)
    {t c : Value} (hcode : code t = .ok c) (info : Value) :
    evaluate (steps + 1) (.list [.symbol "quasiquote", t] info) frame s = evaluate steps c frame s := by
  have hname : SpecialForm.ofName? "quasiquote" = some .quasiquote := SpecialForm.ofName?_name .quasiquote
  have hpart : Run.exactlyOne SpecialForm.quasiquote.name [t] = pure t := rfl
  rw [evaluate_unexpanded h, hname]
  simp only [SpecialForm.value, hpart, pure_bind, hcode]

/-- A call of a primitive with two arguments, if it neither calls nor evaluates anything in turn. -/
theorem evaluate_pair {p : Primitive} {info : Value} {run : List Value → Run Value}
    (hname : SpecialForm.ofName? name = none) (h : s.get? frame name = some (.primitive p false info))
    (hrun : ∀ eval call, p.run eval call frame = run) (steps : Nat) (a b : Value) :
    evaluate (steps + 2) (.ofList [.symbol name, a, b]) frame s = (do
      let v ← evaluate (steps + 1) a frame
      let w ← evaluate (steps + 1) b frame
      run [v, w] : Run Value) s := by
  have hcall : ∀ values, callFunction (evaluate (steps + 1)) (steps + 2) (.primitive p false info) values frame =
      run values := congrFun (hrun _ _)
  rw [Value.ofList, evaluate_call hname h rfl]
  simp only [hcall]
  exact congrFun (evalEach_pair_bind (evaluate (steps + 1)) frame a b run) s

end Unexpanded

/-! ## Where templates are rebuilt -/

/-- Whether the names that the code of templates is made of have, in a frame, the meaning that they have
at the start. -/
structure State.HasBuilders (s : State) (frame : FrameId) : Prop where
  quote : ∀ v, s.get? frame "quote" = some v → v.isMacro = false
  quasiquote : ∀ v, s.get? frame "quasiquote" = some v → v.isMacro = false
  cons : ∃ info, s.get? frame "cons" = some (.primitive .cons false info)
  concat : ∃ info, s.get? frame "concat" = some (.primitive .concat false info)

/-- The names keep their meaning while holes are evaluated from left to right. -/
def State.KeepsBuilders (s : State) (frame : FrameId) (holes : List Hole) : Prop :=
  ∀ (steps : Nat) (before : List Hole), before <+: holes → ∀ (values : List Value) (s' : State),
    evalHoles (evaluate steps) frame before s = .value values s' → s'.HasBuilders frame

theorem State.initial_hasBuilders (arguments : List String) (files : Files) (input : String) (inputEnded : Bool)
    (clock : Nat) : (State.initial arguments files input inputEnded clock).HasBuilders rootFrame where
  quote v hv := by
    cases hv
  quasiquote v hv := by
    cases hv
  cons := ⟨.nil, rfl⟩
  concat := ⟨.nil, rfl⟩

namespace State.KeepsBuilders

variable {s : State} {frame : FrameId} {as bs : List Hole}

theorem here (h : s.KeepsBuilders frame as) : s.HasBuilders frame := h 0 [] List.nil_prefix [] s rfl

theorem left (h : s.KeepsBuilders frame (as ++ bs)) : s.KeepsBuilders frame as :=
  fun steps before hbefore => h steps before (hbefore.trans (List.prefix_append as bs))

theorem right (h : s.KeepsBuilders frame (as ++ bs)) {steps : Nat} {vs : List Value} {t : State}
    (hvs : evalHoles (evaluate steps) frame as s = .value vs t) : t.KeepsBuilders frame bs := by
  intro steps' before hbefore values s' hvalues
  -- all holes so far have their values with the larger number of steps
  have hmore : ∀ {holes : List Hole} {u u' : State} {ws : List Value} {m n : Nat}, m ≤ n →
      evalHoles (evaluate m) frame holes u = .value ws u' → evalHoles (evaluate n) frame holes u = .value ws u' := by
    intro holes u u' ws m n hmn hws
    have hbelow := below_continuing.evalEach (evaluate_below hmn) frame (holes.map Hole.form)
    have hended : (evalHoles (evaluate m) frame holes u).Ended := by
      rw [hws]
      trivial
    exact (hbelow.eq_of_ended hended).symm.trans hws
  refine h (max steps steps') (as ++ before) (List.prefix_append_right_inj as |>.2 hbefore) (vs ++ values) s' ?_
  exact evalHoles_append_value.2
    ⟨vs, values, t, hmore (Nat.le_max_left _ _) hvs, hmore (Nat.le_max_right _ _) hvalues, rfl⟩

/-- Holes that leave the state as it is do not take the names away. -/
theorem of_unchanged {holes : List Hole} (h : s.HasBuilders frame)
    (hholes : ∀ hole ∈ holes, ∀ steps v s', evaluate steps hole.form frame s = .value v s' → s' = s) :
    s.KeepsBuilders frame holes := by
  intro steps before hbefore values s' hvalues
  suffices s' = s by rwa [this]
  have hholes := fun hole hmem => hholes hole (hbefore.subset hmem)
  clear hbefore
  induction before generalizing values with
  | nil =>
    cases hvalues
    rfl
  | cons hole before ih =>
    obtain ⟨v, vs, t, hv, hvs, rfl⟩ := evalHoles_cons_value.1 hvalues
    obtain rfl := hholes hole List.mem_cons_self steps v t hv
    exact ih vs hvs fun hole hmem => hholes hole (List.mem_cons_of_mem _ hmem)

end State.KeepsBuilders

/-! ## Code and rebuilding -/

/-- The list that a rebuilt row makes. -/
def rebuildList (eval : Evaluator) (frame : FrameId) (items : List Value) : Run Value := do
  return .ofList (← rebuildRow eval frame items)

section Lists

variable (eval : Evaluator) (frame : FrameId) {item : Value}

/-- A row is rebuilt by `concat` where a value is to be spliced. -/
theorem rebuildList_spliced {form : Value} (h : item.argumentsOf? "splice-unquote" = some [form]) (items : List Value) :
    rebuildList eval frame (item :: items) = (do
      let v ← eval form frame
      let w ← rebuildList eval frame items
      Sequences.concat frame [v, w]) := by
  have hrow : ∀ row, Run.sequence "concat" (.ofList row) = pure row := fun _ => rfl
  simp only [rebuildList, rebuildRow_spliced _ _ h, Sequences.concat, bind_assoc, pure_bind]
  simp [hrow]

/-- A row is rebuilt by `cons` everywhere else. -/
theorem rebuildList_single (h : item.argumentsOf? "splice-unquote" = none) (items : List Value) :
    rebuildList eval frame (item :: items) = (do
      let v ← rebuild eval frame item
      let w ← rebuildList eval frame items
      Sequences.cons frame [v, w]) := by
  have hcons : ∀ v row, Sequences.cons frame [v, .ofList row] = pure (.ofList (v :: row)) := fun _ _ => rfl
  simp only [rebuildList, rebuildRow_single _ _ h, bind_assoc, pure_bind, hcons]

end Lists

section Code

variable {frame : FrameId}

variable (frame) in
/-- A form codes a run: evaluated where the names keep their meaning, it comes to what the run comes to. -/
structure Template.Codes (form : Value) (holes : List Hole) (x : Nat → Run Value) : Prop where
  climbs : Climbs x
  comes : ∀ s : State, s.KeepsBuilders frame holes → ∀ o, Comes (fun n => evaluate n form frame) s o ↔ Comes x s o

namespace Template.Codes

theorem itself (form : Value) (holes : List Hole) : Codes frame form holes fun n => evaluate n form frame where
  climbs := evaluate_climbs form frame
  comes _ _ _ := Iff.rfl

theorem constant (form : Value) (holes : List Hole) : Codes frame (quoting form) holes fun _ => pure form where
  climbs := .const _
  comes _ h :=
    comes_congr (evaluate_climbs _ frame) (.const _) ⟨1, 0, fun n => evaluate_quoting h.here.quote n form⟩

/-- A call of a primitive with two arguments, the holes of the first before those of the second. -/
theorem pair {p : Primitive} {name : String} {run : List Value → Run Value}
    (hname : SpecialForm.ofName? name = none) (hrun : ∀ eval call, p.run eval call frame = run)
    (hbuilder : ∀ s : State, s.HasBuilders frame → ∃ info, s.get? frame name = some (.primitive p false info))
    {a b : Value} {as bs : List Hole} {x y : Nat → Run Value} (ha : Codes frame a as x) (hb : Codes frame b bs y)
    (hvalue : ∀ n s v s', x n s = .value v s' → ∃ values, evalHoles (evaluate n) frame as s = .value values s') :
    Codes frame (.ofList [.symbol name, a, b]) (as ++ bs) (fun n => do
      let v ← x n
      let w ← y n
      run [v, w]) := by
  have hlast : ∀ v w : Value, Climbs fun _ => run [v, w] := fun v w => .const _
  refine ⟨ha.climbs.bind fun v => hb.climbs.bind (hlast v), fun s h o => ?_⟩
  have hargs : Climbs fun n => (do
      let v ← evaluate n a frame
      let w ← evaluate n b frame
      run [v, w] : Run Value) :=
    (evaluate_climbs a frame).bind fun v => (evaluate_climbs b frame).bind (hlast v)
  obtain ⟨info, hget⟩ := hbuilder s h.here
  refine (comes_congr (evaluate_climbs _ frame) hargs ⟨2, 1, fun n => evaluate_pair hname hget hrun n a b⟩ o).trans ?_
  have hfirst := ha.comes s h.left
  refine comes_bind_congr (evaluate_climbs a frame) ha.climbs (fun v => (evaluate_climbs b frame).bind (hlast v))
    (fun v => hb.climbs.bind (hlast v)) hfirst (fun v s' hv => ?_) o
  -- the second argument is evaluated when the holes of the first have their values
  obtain ⟨n, hn, _⟩ := (hfirst _).1 hv
  obtain ⟨values, hvalues⟩ := hvalue n s v s' hn
  exact comes_bind_congr (evaluate_climbs b frame) hb.climbs (hlast v) (hlast v) (hb.comes s' (h.right hvalues))
    fun w t _ o => Iff.rfl

end Template.Codes

variable (frame) in
/-- The code of a regular template codes its rebuilding. -/
theorem code_codes {t : Value} (h : Regular t) :
    ∃ c, code t = .ok c ∧ Codes frame c (holes t) fun n => rebuild (evaluate n) frame t := by
  refine h.rowInduction (P := fun t => ∃ c, code t = .ok c ∧ Codes frame c (holes t) fun n =>
    rebuild (evaluate n) frame t)
    (Q := fun items => ∃ c, itemsCode false items = .ok c ∧
      Codes frame c (rowHoles items) fun n => rebuildList (evaluate n) frame items)
    ?constant ?hole ?row ?nil ?spliced ?single
  case constant =>
    intro form hform
    refine ⟨_, code_constant hform, ?_⟩
    have hrebuild : (fun n => rebuild (evaluate n) frame form) = fun _ => pure form :=
      funext fun n => rebuild_constant _ _ hform
    rw [hrebuild]
    exact .constant form _
  case hole => exact fun form info => ⟨form, rfl, .itself form _⟩
  case row =>
    intro form item items hitems hhead ⟨c, hc, hcodes⟩
    refine ⟨c, (code_row hitems hhead).trans hc, ?_⟩
    have hrebuild : (fun n => rebuild (evaluate n) frame form) = fun n =>
      rebuildList (evaluate n) frame (item :: items) :=
      funext fun n => rebuild_row _ _ hitems hhead
    rw [hrebuild, holes_row hitems hhead]
    exact hcodes
  case nil => exact ⟨_, rfl, .constant (.ofList []) _⟩
  case spliced =>
    intro item form items hitem hlate ⟨rest, hrest, hcodes⟩
    refine ⟨.ofList [.symbol "concat", form, rest], ?_, ?_⟩
    · rw [itemsCode_cons (.inl rfl), hitem, itemsCode_isList (fun late h =>
        hlate late (List.mem_of_mem_head? h)), hrest]
      rfl
    have hrebuild := funext fun n => rebuildList_spliced (evaluate n) frame hitem items
    rw [hrebuild, rowHoles_spliced hitem]
    refine Codes.pair (by decide) (fun _ _ => rfl) (fun s h => h.concat) (.itself form [⟨form, true⟩]) hcodes ?_
    intro n s v s' hv
    exact ⟨[v], evalHoles_cons_value.2 ⟨v, [], s', hv, rfl, rfl⟩⟩
  case single =>
    intro item items hitem hlate hregular ⟨first, hfirst, hitemCodes⟩ ⟨rest, hrest, hcodes⟩
    refine ⟨.ofList [.symbol "cons", first, rest], ?_, ?_⟩
    · rw [itemsCode_cons (.inl rfl), hitem, itemsCode_isList (fun late h => hlate late (List.mem_of_mem_head? h)),
        hrest, hfirst]
      rfl
    have hrebuild := funext fun n => rebuildList_single (evaluate n) frame hitem items
    rw [hrebuild, rowHoles_single hitem]
    refine Codes.pair (by decide) (fun _ _ => rfl) (fun s h => h.cons) hitemCodes hcodes ?_
    intro n s v s' hv
    obtain ⟨values, hvalues, _⟩ := ((rebuild_fills hregular).value_iff s v s').1 hv
    exact ⟨values, hvalues⟩

end Code

/-! ## Quasiquoted templates -/

/-- A quasiquoted template comes to what rebuilding it comes to. -/
theorem quasiquote_comes {t : Value} (h : Regular t) {s : State} {frame : FrameId}
    (hkeeps : s.KeepsBuilders frame (holes t)) (info : Value) (o : Outcome Value) :
    Comes (fun n => evaluate n (.list [.symbol "quasiquote", t] info) frame) s o ↔
      Comes (fun n => rebuild (evaluate n) frame t) s o := by
  obtain ⟨c, hc, hcodes⟩ := code_codes frame h
  have hcode := comes_congr (evaluate_climbs _ frame) (evaluate_climbs c frame)
    ⟨1, 0, fun n => evaluate_quasiquote hkeeps.here.quasiquote n hc info⟩ o
  exact hcode.trans (hcodes.comes s hkeeps o)

/-- A quasiquoted template evaluates its holes from left to right, and nothing else shows. It comes to a
value exactly if all holes do and their values fit, and then the value is the filled template. If a
hole raises a fault, the fault comes out, in the state that it was raised in. No other fault comes
out, but for a value that does not fit; all holes evaluated until then have got their values. -/
theorem quasiquote_fills {t : Value} (h : Regular t) {s : State} {frame : FrameId}
    (hkeeps : s.KeepsBuilders frame (holes t)) (info : Value) :
    (∀ v s', (∃ n, evaluate n (.list [.symbol "quasiquote", t] info) frame s = .value v s') ↔
      ∃ n values, evalHoles (evaluate n) frame (holes t) s = .value values s' ∧
        List.Forall₂ Hole.Fits (holes t) values ∧ v = fill t values) ∧
    (∀ n before hole after values u fault s', holes t = before ++ hole :: after →
      evalHoles (evaluate n) frame before s = .value values u → Reaches t values →
      evaluate n hole.form frame u = .fault fault s' →
      ∃ n, evaluate n (.list [.symbol "quasiquote", t] info) frame s = .fault fault s') ∧
    (∀ n fault s', evaluate n (.list [.symbol "quasiquote", t] info) frame s = .fault fault s' →
      ∃ n, Fails (evaluate n) frame (holes t) s fault s') := by
  have hcomes := quasiquote_comes h hkeeps info
  refine ⟨fun v s' => ?_, ?_, ?_⟩
  · constructor
    · rintro ⟨n, hn⟩
      obtain ⟨m, hm, _⟩ := (hcomes _).1 ⟨n, hn, trivial⟩
      exact ⟨m, ((rebuild_fills h).value_iff s v s').1 hm⟩
    · rintro ⟨n, hn⟩
      obtain ⟨m, hm, _⟩ := (hcomes _).2 ⟨n, ((rebuild_fills h).value_iff s v s').2 hn, trivial⟩
      exact ⟨m, hm⟩
  · intro n before hole after values u fault s' hholes hvalues hreaches hfault
    have hn := (rebuild_fills h).fault before hole after values s u fault s' hholes hvalues hreaches hfault
    obtain ⟨m, hm, _⟩ := (hcomes _).2 ⟨n, hn, trivial⟩
    exact ⟨m, hm⟩
  · intro n fault s' hn
    obtain ⟨m, hm, _⟩ := (hcomes _).1 ⟨n, hn, trivial⟩
    exact ⟨m, (rebuild_fills h).fails s fault s' hm⟩

/-- The template `(a [~*ARGV* ~@*ARGV*])`. -/
def argumentsTemplate : Value :=
  .ofList [.symbol "a", .ofVector [.ofList [.symbol "unquote", .symbol "*ARGV*"],
    .ofList [.symbol "splice-unquote", .symbol "*ARGV*"]]]

theorem regular_argumentsTemplate : Regular argumentsTemplate := by
  have hsymbol : Regular (.symbol "a") := .constant rfl
  have hhole : Regular (.ofList [.symbol "unquote", .symbol "*ARGV*"]) := .hole _ _
  have hrow : Regular (.ofVector [.ofList [.symbol "unquote", .symbol "*ARGV*"],
      .ofList [.symbol "splice-unquote", .symbol "*ARGV*"]]) := by
    refine .row rfl rfl ?late ?splices ?parts
    case late => simp [Value.ofList]
    case splices => simp [Value.ofList, Value.argumentsOf?]
    case parts => simpa [Value.ofList, Value.argumentsOf?] using hhole
  refine .row rfl rfl ?late ?splices ?parts
  case late => simp [Value.ofVector]
  case splices => simp [Value.ofVector, Value.argumentsOf?]
  case parts => simpa [Value.ofVector, Value.argumentsOf?] using ⟨hsymbol, hrow⟩

theorem quasiquote_fills_argumentsTemplate :
    let s := State.initial ["x", "y"] (.tree []) "" true 0
    Regular argumentsTemplate ∧ s.KeepsBuilders rootFrame (holes argumentsTemplate) ∧
      ∃ n, evaluate n (.ofList [.symbol "quasiquote", argumentsTemplate]) rootFrame s =
        .value (.ofList [.symbol "a", .ofList [.ofList [.str "x", .str "y"], .str "x", .str "y"]]) s := by
  intro s
  have hbuilders : s.HasBuilders rootFrame := State.initial_hasBuilders _ _ _ _ _
  let arguments : Value := .ofList [.str "x", .str "y"]
  have harguments : s.get? rootFrame "*ARGV*" = some arguments := by rfl
  have hholes : holes argumentsTemplate = [⟨.symbol "*ARGV*", false⟩, ⟨.symbol "*ARGV*", true⟩] := by rfl
  have hkeeps : s.KeepsBuilders rootFrame (holes argumentsTemplate) := by
    refine .of_unchanged hbuilders fun hole hmem steps v s' hv => ?_
    have hform : hole.form = .symbol "*ARGV*" := by
      rw [hholes] at hmem
      simp only [List.mem_cons, List.not_mem_nil, or_false] at hmem
      rcases hmem with rfl | rfl <;> rfl
    rw [hform] at hv
    cases steps with
    | zero => cases hv
    | succ steps =>
      rw [evaluate_symbol harguments] at hv
      cases hv
      rfl
  refine ⟨regular_argumentsTemplate, hkeeps, ?_⟩
  refine ((quasiquote_fills regular_argumentsTemplate hkeeps .nil).1 _ s).2 ⟨1, [arguments, arguments], ?_, ?_, rfl⟩
  · have hvalue := evaluate_symbol harguments 0
    exact evalHoles_cons_value.2 ⟨_, _, s, hvalue, evalHoles_cons_value.2 ⟨_, [], s, hvalue, rfl, rfl⟩, rfl⟩
  · exact .cons (fun _ => .inr rfl) (.cons (fun _ => .inr rfl) .nil)

end SmallLisp
