/-
Closed properties of primitives. No primitive touches a frame by itself. Main statement: a property that is closed
beside frames holds of all primitives that call and evaluate nothing
(`Run.ClosedBesideFrames.primitive_of_notMem_calling`).
-/
import SmallLisp.Proofs.Primitive.Soundness
import SmallLisp.Proofs.Run.Closed

namespace SmallLisp

/-- The primitives that call a function or evaluate a form. -/
def Primitive.calling : List Primitive := [.apply, .map, .swap, .eval]

namespace Run.ClosedBesideFrames

variable {P : ∀ α : Type, Run α → Prop} (h : ClosedBesideFrames P) {frame : FrameId} (args : List Value)
include h

/-! ## Arithmetic -/

theorem computed {x : Except Fault Number} (hx : FailsOnly Fault.IsOwn x) :
    P Value (Number.toValue <$> Run.ofExcept x) := h.map (h.ofExcept hx) _

theorem folded {op : Number → Number → Except Fault Number} (hop : ∀ a b, FailsOnly Fault.IsOwn (op a b))
    (total : Number) (ns : List Number) :
    P Value (Number.toValue <$> Run.ofExcept (Arithmetic.foldNumbers op total ns)) :=
  h.computed (foldNumbers_fails hop total ns)

theorem add : P Value (Arithmetic.add frame args) :=
  h.bind (h.numbers _ _) fun _ => h.folded (Number.add_fails fun _ _ => nofun) _ _

theorem subtract : P Value (Arithmetic.subtract frame args) := by
  refine h.bind (h.oneOrMore _ _) fun _ => h.bind (h.numbers _ _) fun ns => ?_
  split
  · exact h.failArity _
  · exact h.pure _
  · exact h.folded (Number.sub_fails fun _ _ => nofun) _ _

theorem multiply : P Value (Arithmetic.multiply frame args) :=
  h.bind (h.numbers _ _) fun _ => h.folded (Number.mul_fails fun _ _ => nofun) _ _

theorem divide : P Value (Arithmetic.divide frame args) := by
  have hdiv : ∀ a b : Number, FailsOnly Fault.IsOwn (a.div b) :=
    Number.div_fails (fun _ _ => nofun) fun _ _ => nofun
  refine h.bind (h.oneOrMore _ _) fun _ => h.bind (h.numbers _ _) fun ns => ?_
  split
  · exact h.failArity _
  · exact h.computed (hdiv _ _)
  · exact h.folded hdiv _ _

theorem equals : P Value (Arithmetic.equals frame args) :=
  h.bind (h.oneOrMore _ _) fun _ => h.ask fun _ => .ok _

/-! ## Sequences and maps -/

theorem count : P Value (Sequences.count frame args) := by
  refine h.bind (h.exactlyOne _ _) fun v => ?_
  split
  · exact h.pure _
  · exact h.pure _
  · exact h.bind (h.sequence _ _) fun _ => h.pure _

theorem isEmpty : P Value (Sequences.isEmpty frame args) := by
  refine h.bind (h.exactlyOne _ _) fun v => h.bind (h.count _) fun n => ?_
  split
  · exact h.pure _
  · exact h.pure _

theorem nth : P Value (Sequences.nth frame args) := by
  refine h.bind (h.exactlyTwo _ _) fun (v, index) => h.bind (h.sequence _ _) fun items => ?_
  split
  · split
    · exact h.fail fun _ _ => nofun
    · split
      · exact h.pure _
      · exact h.fail fun _ _ => nofun
  · exact h.failKind _

theorem conj : P Value (Sequences.conj frame args) := by
  refine h.bind (h.oneOrMore _ _) fun (v, items) => ?_
  dsimp only
  split
  · exact h.pure _
  · exact h.bind (h.sequence _ _) fun _ => h.pure _

theorem seq : P Value (Sequences.seq frame args) := by
  refine h.bind (h.exactlyOne _ _) fun v => ?_
  split
  · exact h.pure _
  · exact h.bind (h.sequence _ _) fun items => h.pure _

theorem newEntries : P Entries (Maps.newEntries frame args) := by
  unfold Maps.newEntries
  split
  · exact h.failKind _
  · exact h.bind (h.forM (fun entry => h.requireKey _ _) _) fun _ => h.pure _

theorem eraseKeys : ∀ (keys : List Value) (entries : Entries), P Entries (Maps.eraseKeys entries keys)
  | [], _ => h.pure _
  | key :: keys, entries => h.bind (h.requireKey _ key) fun _ => eraseKeys keys (entries.erase key)

/-! ## Texts and metadata -/

theorem symbol : P Value (Texts.symbol frame args) := by
  refine h.bind (h.exactlyOne _ _) fun v => ?_
  split
  · exact h.pure _
  · exact h.failKind _

theorem keyword : P Value (Texts.keyword frame args) := by
  refine h.bind (h.exactlyOne _ _) fun v => ?_
  split
  · exact h.pure _
  · exact h.pure _
  · exact h.failKind _

theorem readString : P Value (Texts.readString frame args) := by
  refine h.bind (h.exactlyOne _ _) fun v => ?_
  split
  · split
    · exact h.pure _
    · exact h.fail fun _ _ => nofun
  · exact h.failKind _

theorem slurp : P Value (Texts.slurp frame args) := by
  refine h.bind (h.exactlyOne _ _) fun v => ?_
  split
  · exact h.bind (h.readFile _) fun _ => h.pure _
  · exact h.failKind _

theorem readline : P Value (Texts.readline frame args) := by
  refine h.bind (h.exactlyOne _ _) fun v => h.bind (h.plain _) fun _ => h.bind (h.print _) fun _ =>
    h.bind h.nextLine fun line => ?_
  split
  · exact h.pure _
  · exact h.pure _

theorem setMeta : P Value (Metadata.set frame args) := by
  refine h.bind (h.exactlyTwo _ _) fun (v, info) => ?_
  dsimp only
  split
  · exact h.pure _
  · exact h.failKind _

/-! ## All primitives -/

theorem primitive_of_notMem_calling (eval : Evaluator) (call : Caller) {p : Primitive} (hp : p ∉ Primitive.calling) :
    P Value (p.run eval call frame args) := by
  cases p with dsimp only [Primitive.run]
  | add => exact h.add args
  | subtract => exact h.subtract args
  | multiply => exact h.multiply args
  | divide => exact h.divide args
  | equals => exact h.equals args
  | compare => exact h.bind (h.oneOrMore _ _) fun _ => h.bind (h.numbers _ _) fun _ => h.pure _
  | query => exact h.bind (h.exactlyOne _ _) fun _ => h.pure _
  | symbol => exact h.symbol args
  | keyword => exact h.keyword args
  | list | vector => exact h.pure _
  | hashMap => exact h.bind (h.newEntries _) fun _ => h.pure _
  | cons => exact h.bind (h.exactlyTwo _ _) fun (_, _) => h.bind (h.sequence _ _) fun _ => h.pure _
  | concat => exact h.bind (h.mapM (h.sequence _) args) fun _ => h.pure _
  | count => exact h.count args
  | isEmpty => exact h.isEmpty args
  | first | rest | vec => exact h.bind (h.exactlyOne _ _) fun _ => h.bind (h.sequence _ _) fun _ => h.pure _
  | nth => exact h.nth args
  | conj => exact h.conj args
  | seq => exact h.seq args
  | assoc =>
    exact h.bind (h.oneOrMore _ _) fun (_, _) => h.bind (h.entries _ _) fun _ => h.bind (h.newEntries _) fun _ =>
      h.pure _
  | dissoc =>
    exact h.bind (h.oneOrMore _ _) fun (_, _) => h.bind (h.entries _ _) fun _ => h.bind (h.eraseKeys _ _) fun _ =>
      h.pure _
  | get =>
    exact h.bind (h.exactlyTwo _ _) fun (_, _) => h.bind (h.entries _ _) fun _ => h.bind (h.requireKey _ _) fun _ =>
      h.pure _
  | contains =>
    exact h.bind (h.exactlyTwo _ _) fun (_, _) => h.bind (h.requireKey _ _) fun _ => h.bind (h.entries _ _) fun _ =>
      h.pure _
  | keys | vals => exact h.bind (h.exactlyOne _ _) fun _ => h.bind (h.entries _ _) fun _ => h.pure _
  | prStr => exact h.bind (h.mapM h.shown args) fun _ => h.pure _
  | str => exact h.bind (h.mapM h.plain args) fun _ => h.pure _
  | prn => exact h.bind (h.mapM h.shown args) fun _ => h.bind (h.print _) fun _ => h.pure _
  | println => exact h.bind (h.mapM h.plain args) fun _ => h.bind (h.print _) fun _ => h.pure _
  | readString => exact h.readString args
  | slurp => exact h.slurp args
  | readline => exact h.readline args
  | atom => exact h.bind (h.exactlyOne _ _) fun _ => h.bind (h.newCell _) fun _ => h.pure _
  | deref => exact h.bind (h.exactlyOne _ _) fun _ => h.bind (h.requireCell _ _) fun _ => h.content _
  | reset =>
    exact h.bind (h.exactlyTwo _ _) fun (_, _) => h.bind (h.requireCell _ _) fun _ => h.bind (h.setContent _ _) fun _ =>
      h.pure _
  | getMeta => exact h.bind (h.exactlyOne _ _) fun _ => h.pure _
  | withMeta => exact h.setMeta args
  | throw => exact h.bind (h.exactlyOne _ _) fun v => h.throw v
  | timeMs => exact h.bind h.readClock fun _ => h.pure _
  | apply | map | swap | eval => exact absurd (by decide) hp

end Run.ClosedBesideFrames

end SmallLisp
