/-
The faults that a session can show. Every parameter list binds arguments without running out of
names, and every key is checked before it is looked up or put into a map, so that nothing remains but
the faults of the language, numbers beyond a limit, and what the disk says about a file. Main
statement: `reachable_faults`.
-/
import SmallLisp.Proofs.Run.Parameters
import SmallLisp.Proofs.Session.Reachable
import SmallLisp.Proofs.Source.Reading

namespace SmallLisp

open Run (Ensures)

/-! ## Parameters -/

/-- Whether a fault says that the number of arguments is wrong, or that it cannot say so, because an
argument has no text. -/
def Fault.IsOfBinding (f : Fault) : Prop := (∃ cause, f = .arity cause) ∨ f = .integerTooLong ∨ f = .endlessText

/-- Whatever the arguments are, a name is missing for none of them. -/
theorem Parameters.bind_fault (params : Parameters) {args : List Value} {s s' : State} {f : Fault}
    (h : params.bind args s = .fault f s') : f.IsOfBinding := by
  have hinspected : ∀ v, Ensures (fun _ => True) (Run.inspected v) (fun _ => True) Fault.IsOfBinding := fun v =>
    .ask (fun _ _ _ _ => trivial) fun s =>
      Value.inspect_fails (F := Fault.IsOfBinding) (.inr (.inl rfl)) (.inr (.inr rfl)) s.cells v
  have hbind : Ensures (fun _ => True) (params.bind args) (Bindings.Each fun _ => True) Fault.IsOfBinding :=
    params.bind_ensures hinspected (fun cause => .inl ⟨cause, rfl⟩) (fun _ _ => trivial) fun _ _ => trivial
  exact (hbind.fault trivial h).2

/-! ## Keys -/

/-- The arguments that a primitive takes for keys. -/
def Primitive.keyArguments : Primitive → List Value → List Value
  | .hashMap, args => (Entries.pairs args).map (·.1)
  | .assoc, args => (Entries.pairs args.tail).map (·.1)
  | .dissoc, args | .get, args | .contains, args => args.tail
  | _, _ => []

section Keys

/-- What a run comes to a value for, whatever its state is. -/
abbrev Shows {α : Type} (x : Run α) (Q : α → Prop) : Prop := Ensures (fun _ => True) x Q fun _ => True

theorem Shows.nothing {α : Type} (x : Run α) : Shows x fun _ => True := Ensures.nothing x

theorem requireKey_shows (name : String) (key : Value) : Shows (Run.requireKey name key) fun _ => key.Admissible :=
  .requireKey name (.nothing _) fun _ => trivial

theorem oneOrMore_shows (name : String) (args : List Value) :
    Shows (Run.oneOrMore name args) fun (first, rest) => args = first :: rest := by
  unfold Run.oneOrMore
  split
  · exact .pure rfl
  · exact .fail trivial _

theorem exactlyTwo_shows (name : String) (args : List Value) :
    Shows (Run.exactlyTwo name args) fun (first, second) => args = [first, second] := by
  unfold Run.exactlyTwo
  split
  · exact .pure rfl
  · exact .fail trivial _
  · exact .fail trivial _

theorem newEntries_shows (frame : FrameId) (args : List Value) :
    Shows (Maps.newEntries frame args) fun _ => ∀ key ∈ (Entries.pairs args).map (·.1), key.Admissible := by
  unfold Maps.newEntries
  split
  · exact .fail trivial _
  · refine .bind (.forM fun entry _ => requireKey_shows "hash-map" entry.1) fun _ hkeys => .pure ?_
    exact List.forall_mem_map.2 hkeys

theorem eraseKeys_shows : ∀ (keys : List Value) (entries : Entries),
    Shows (Maps.eraseKeys entries keys) fun _ => ∀ key ∈ keys, key.Admissible
  | [], _ => .pure fun _ h => absurd h List.not_mem_nil
  | key :: keys, entries => .bind (requireKey_shows "dissoc" key) fun _ hkey =>
      (eraseKeys_shows keys (entries.erase key)).weaken fun _ hkeys => List.forall_mem_cons.2 ⟨hkey, hkeys⟩

/-- A primitive has checked every key that it was given when it comes to a value. -/
theorem primitive_shows (eval : Evaluator) (call : Caller) (p : Primitive) (frame : FrameId) (args : List Value) :
    Shows (p.run eval call frame args) fun _ => ∀ key ∈ p.keyArguments args, key.Admissible := by
  cases p with
  | hashMap => exact .bind (newEntries_shows frame args) fun _ hkeys => .pure hkeys
  | assoc =>
    refine .bind (oneOrMore_shows "assoc" args) fun (v, rest) hargs => ?_
    subst hargs
    exact .bind (.nothing _) fun _ _ => .bind (newEntries_shows frame rest) fun _ hkeys => .pure hkeys
  | dissoc =>
    refine .bind (oneOrMore_shows "dissoc" args) fun (v, keys) hargs => ?_
    subst hargs
    exact .bind (.nothing _) fun old _ => .bind (eraseKeys_shows keys old) fun _ hkeys => .pure hkeys
  | get =>
    refine .bind (exactlyTwo_shows "get" args) fun (v, key) hargs => ?_
    subst hargs
    exact .bind (.nothing _) fun _ _ => .bind (requireKey_shows "get" key) fun _ hkey =>
      .pure (List.forall_mem_singleton.2 hkey)
  | contains =>
    refine .bind (exactlyTwo_shows "contains?" args) fun (v, key) hargs => ?_
    subst hargs
    exact .bind (requireKey_shows "contains?" key) fun _ hkey => .bind (.nothing _) fun _ _ =>
      .pure (List.forall_mem_singleton.2 hkey)
  | _ => exact (Shows.nothing _).weaken fun _ _ _ h => absurd h List.not_mem_nil

/-- So has the evaluation of a map of forms. -/
theorem evalEntries_shows (eval : Evaluator) (frame : FrameId) : ∀ forms : List (Value × Value),
    Shows (evalEntries eval frame forms) fun entries => ∀ entry ∈ entries, entry.1.Admissible
  | [] => .pure fun _ h => absurd h List.not_mem_nil
  | _ :: forms => .bind (.nothing _) fun key _ => .bind (requireKey_shows _ key) fun _ hkey =>
      .bind (.nothing _) fun _ _ => .bind (evalEntries_shows eval frame forms) fun _ hentries =>
        .pure (List.forall_mem_cons.2 ⟨hkey, hentries⟩)

end Keys

/-! ## Faults -/

namespace Fault

/-- The faults that the language itself defines. -/
def IsOfLanguage : Fault → Prop
  | .reading cause => cause.IsSyntactic
  | .unbound _ | .arity _ | .kind _ | .divisionByZero | .indexOutOfRange | .thrown .. => True
  | _ => False

/-- The faults of numbers that are too large: to become a double, to be written, or to be read. -/
def IsOfSize : Fault → Prop
  | .doubleOverflow | .integerTooLong | .reading (.tooManyDigits _) => True
  | _ => False

/-- What the disk says about a file that a text names. -/
def IsOfDisk (files : Files) (f : Fault) : Prop :=
  ∃ name cause, files.lookup? (Path.ofString name) = some (.error cause) ∧ f = .file cause

theorem Regular.cases {files : Files} {f : Fault} (h : f.Regular files) :
    f.IsOfLanguage ∨ f.IsOfSize ∨ f.IsOfDisk files ∨ f = .endlessText := by
  cases h with
  | reading cause =>
    cases cause with
    | tooManyDigits => exact .inr (.inl trivial)
    | _ => exact .inl trivial
  | unbound | arity | kind | divisionByZero | indexOutOfRange | thrown => exact .inl trivial
  | doubleOverflow | integerTooLong => exact .inr (.inl trivial)
  | endlessText => exact .inr (.inr (.inr rfl))
  | file name hdisk => exact .inr (.inr (.inl ⟨name, _, hdisk, rfl⟩))

end Fault

namespace Session

/-- Whatever a session has done before, a text ends with a value or with a fault of the language, of a
number's size or of the disk; the text of a cell that holds itself has no end. The reasons are that
every function that is left anywhere has a parameter list that binds its arguments, that every map
that is left anywhere has keys that could pass the check, and that every key is checked before it is
looked up or put into a map, by primitives and in map literals alike. -/
theorem reachable_faults {s : State} (h : Reachable s) :
    (∀ steps text f s', Session.eval steps text s = .fault f s' ∨ Session.rep steps text s = .fault f s' →
      f.IsOfLanguage ∨ f.IsOfSize ∨ f.IsOfDisk s.files ∨ f = .endlessText) ∧
    (∀ v, s.Holds v → ∀ params body frame isMacro info, (Value.closure params body frame isMacro info).Inside v →
      Parameters.ofNames? params.names = some params ∧
      ∀ args t f t', params.bind args t = .fault f t' → f.IsOfBinding) ∧
    (∀ v, s.Holds v → ∀ entries info, (Value.map entries info).Inside v → ∀ entry ∈ entries, entry.1.Admissible) ∧
    (∀ eval call (p : Primitive) frame args t v t', p.run eval call frame args t = .value v t' →
      ∀ key ∈ p.keyArguments args, key.Admissible) ∧
    (∀ eval frame forms t entries t', evalEntries eval frame forms t = .value entries t' →
      ∀ entry ∈ entries, entry.1.Admissible) := by
  refine ⟨?_, fun _ _ params _ _ _ _ _ => ⟨params.ofNames?_names, fun _ _ _ _ => params.bind_fault⟩,
    fun v hv entries info hinside => (h.sound.held v hv _ hinside).1,
    fun eval call p frame args t v t' hrun => ((primitive_shows eval call p frame args).value trivial hrun).2,
    fun eval frame forms t entries t' hrun => ((evalEntries_shows eval frame forms).value trivial hrun).2⟩
  rintro steps text f s' (hfault | hfault)
  · exact ((eval_safe steps text).fault h.sound hfault).2.cases
  · exact ((rep_safe steps text).fault h.sound hfault).2.cases

/-- A program that puts a function with a rest parameter into a cell. -/
def functionInCell : String := "(atom (fn* (a & b) a))"

/-- The only form of `functionInCell`. -/
def functionInCellForm : Value :=
  .ofList [.symbol "atom", .ofList [.symbol "fn*", .ofList [.symbol "a", .symbol "&", .symbol "b"], .symbol "a"]]

theorem reachable_faults_functionInCell :
    let s := (Session.eval 4 functionInCell (State.initial [] (.tree []) "" true 0)).state
    Reachable s ∧ ∃ params body frame isMacro info, s.Holds (.closure params body frame isMacro info) ∧
      params.names = ["a", "&", "b"] ∧ Parameters.ofNames? params.names = some params ∧
      ∃ f, params.bind [] s = .fault f s ∧ f.IsOfBinding := by
  intro s
  have hreachable : Reachable s := .eval _ _ (.initial [] (.tree []) "" true 0)
  have hread : Source.readAll functionInCell = ⟨[functionInCellForm], none, []⟩ := by rfl
  have hcell : s.cells[0]? = some (.closure ⟨["a"], some "b", by decide⟩ [.symbol "a"] 0 false .nil) := by
    simp only [s, eval_eq_evaluate hread]
    rfl
  have hholds := State.Holds.content hcell
  obtain ⟨hnames, hbind⟩ := (reachable_faults hreachable).2.1 _ hholds _ _ _ _ _ (Value.inside_iff.2 (.inl rfl))
  have hfault : ∀ t, (Parameters.mk ["a"] (some "b")).bind [] t = .fault (.arity (.missing ["a"])) t := fun _ => rfl
  exact ⟨hreachable, _, _, _, _, _, hholds, rfl, hnames, _, hfault s, hbind _ _ _ _ (hfault s)⟩

end Session

end SmallLisp
