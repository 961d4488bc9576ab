/-
Files that are loaded. The prelude's `load-file` puts the text of a file into `(do .. nil)`, reads one
form from that, and evaluates it in the root frame. Main statements: a file that is read without a fault
is evaluated form by form (`loadFile_evaluates`), and a file with a fault of the syntax is refused as a
whole, except for one that closes the list itself and one that ends in prefixes (`loadFile_malformed`).
-/
import SmallLisp.Proofs.Evaluation.Rules
import SmallLisp.Proofs.Run.Tree
import SmallLisp.Proofs.Session.Reachable
import SmallLisp.Proofs.Source.Enclosed

namespace SmallLisp

open Run (Climbs Comes below_continuing comes_iff_of_eq comes_value_iff comes_fault_iff)

/-! ## The text that is read -/

/-- The text that stands for a file. -/
def loadText (text : String) : String := "(do " ++ text ++ "\nnil)"

namespace Source

theorem tokens_loadText (text : String) : tokens (loadText text).toList =
    .opening .round :: .word "do".toList :: (tokens text.toList ++ lastNil) := by
  have hchars : (loadText text).toList =
      Bracket.round.opening :: ("do".toList ++ ' ' :: (text.toList ++ '\n' :: "nil)".toList)) := by
    simp [loadText, Bracket.opening]
  have hword : IsWord "do".toList := isWord_of_tokens_eq (by decide)
  have hlast : tokens "nil)".toList = lastNil := by decide
  rw [hchars, tokens_opening, tokens_word_space hword, tokens_append_newline, hlast]

/-- The form of a file is read inside of the list, after its head. -/
theorem read_loadText (text : String) :
    read (loadText text) = (readFrom [.items .round [.symbol "do"]] (tokens text.toList ++ lastNil)).1 := by
  rw [read, nextForm, tokens_loadText]
  rfl

theorem read_loadText_of_forms {text : String} {forms : List Value} {rest : List Token}
    (h : readAll text = ⟨forms, none, rest⟩) :
    read (loadText text) = .ok (some (.ofList (.symbol "do" :: (forms ++ [.nil])))) := by
  have hforms : allForms (tokens text.toList) = ⟨forms, none, rest⟩ := h
  rw [read_loadText, readFrom_items (by rw [hforms]), hforms]
  have hclosing : readFrom [.items .round (.nil :: (forms.reverse ++ [.symbol "do"]))] [.closing .round] =
      (.ok (some (.ofList (.symbol "do" :: (forms ++ [.nil])))), []) :=
    readFrom_closing (by simp [compound]) []
  exact congrArg Prod.fst hclosing

end Source

/-! ## The function -/

/-- The text of the definition in the prelude. -/
def loadFileDefinition : String :=
  "(def! load-file\n  (fn* (f) (eval (read-string (str \"(do \" (slurp f) \"\\nnil)\")))))"

/-- The form that makes the text. -/
def loadTextForm : Value :=
  .ofList [.symbol "str", .str "(do ", .ofList [.symbol "slurp", .symbol "f"], .str "\nnil)"]

/-- The only form of the body. -/
def loadBody : Value := .ofList [.symbol "eval", .ofList [.symbol "read-string", loadTextForm]]

/-- What `load-file` is bound to. -/
def loadFile : Value := .closure ⟨["f"], none, by decide⟩ [loadBody] rootFrame false .nil

/-- What the primitive `slurp` makes of the content of a file. -/
def fileText (content : String) : String := String.ofList (unifyNewlines content.toList)

/-- Whether the names in `load-file` have the meaning that they have at the start. -/
structure State.CanLoad (s : State) : Prop where
  eval : ∃ info, s.get? rootFrame "eval" = some (.primitive .eval false info)
  readString : ∃ info, s.get? rootFrame "read-string" = some (.primitive .readString false info)
  str : ∃ info, s.get? rootFrame "str" = some (.primitive .str false info)
  slurp : ∃ info, s.get? rootFrame "slurp" = some (.primitive .slurp false info)
  inOrder : ∀ v, s.get? rootFrame "do" = some v → v.isMacro = false

/-! ## The call -/

/-- The state in which the body of `load-file` is evaluated, in the frame that is added last. -/
def State.loading (s : State) (path : String) : State := s.addFrame ⟨some rootFrame, [("f", .str path)]⟩

section Call

variable {u : State} {path content : String}

theorem get?_loading {name : String} {v : Value} (h : u.get? rootFrame name = some v) (hname : "f" ≠ name) :
    (u.loading path).get? u.frames.size name = some v :=
  State.get?_addFrame_root h (by simp [Bindings.find?, hname])

section File

variable (h : u.CanLoad) (hfile : u.files.lookup? (Path.ofString path) = some (.ok content)) (steps : Nat)
include h hfile

theorem evaluate_slurp : evaluate (steps + 2) (.ofList [.symbol "slurp", .symbol "f"]) u.frames.size (u.loading path) =
    .value (.str (fileText content)) (u.loading path) := by
  obtain ⟨info, hslurp⟩ := h.slurp
  have hpath : evaluate (steps + 1) (.symbol "f") u.frames.size (u.loading path) =
      .value (.str path) (u.loading path) := evaluate_symbol (State.get?_addFrame_bound rfl _) steps
  have hfiles : (u.loading path).files.lookup? (Path.ofString path) = some (.ok content) := hfile
  have hanswer : Run.tryReadFile (Path.ofString path) (u.loading path) =
      .value (.ok (fileText content)) (u.loading path) := by
    simp only [Run.tryReadFile, hfiles, fileText]
  have htext : Run.readFile (Path.ofString path) (u.loading path) = .value (fileText content) (u.loading path) :=
    Run.bind_eq_value.2 ⟨_, _, hanswer, rfl⟩
  have hread : Texts.slurp u.frames.size [.str path] (u.loading path) =
      .value (.str (fileText content)) (u.loading path) :=
    Run.bind_eq_value.2 ⟨.str path, _, rfl, Run.bind_eq_value.2 ⟨_, _, htext, rfl⟩⟩
  exact (evaluate_call_one (by decide) (get?_loading hslurp (by decide)) rfl hpath .nil).trans hread

theorem evaluate_loadTextForm : evaluate (steps + 3) loadTextForm u.frames.size (u.loading path) =
    .value (.str (loadText (fileText content))) (u.loading path) := by
  obtain ⟨info, hstr⟩ := h.str
  have hparts : evalEach (evaluate (steps + 2)) u.frames.size
      [.str "(do ", .ofList [.symbol "slurp", .symbol "f"], .str "\nnil)"] (u.loading path) =
      .value [.str "(do ", .str (fileText content), .str "\nnil)"] (u.loading path) :=
    evalEach_cons_value.2 ⟨_, _, _, rfl, evalEach_cons_value.2 ⟨_, _, _, evaluate_slurp h hfile steps,
      evalEach_cons_value.2 ⟨_, [], _, rfl, rfl, rfl⟩, rfl⟩, rfl⟩
  rw [loadTextForm, Value.ofList, evaluate_call (by decide) (get?_loading hstr (by decide)) rfl]
  exact Run.bind_eq_value.2 ⟨_, _, hparts, rfl⟩

theorem evaluate_readForm : evaluate (steps + 4) (.ofList [.symbol "read-string", loadTextForm]) u.frames.size
    (u.loading path) = readString (loadText (fileText content)) (u.loading path) := by
  obtain ⟨info, hread⟩ := h.readString
  have htext := evaluate_loadTextForm h hfile steps
  generalize loadText (fileText content) = text at htext ⊢
  exact evaluate_call_one (by decide) (get?_loading hread (by decide)) rfl htext .nil

theorem evaluate_loadBody_ok {form? : Option Value} (hok : Source.read (loadText (fileText content)) = .ok form?) :
    evaluate (steps + 5) loadBody u.frames.size (u.loading path) =
      evaluate (steps + 4) (form?.getD .nil) rootFrame (u.loading path) := by
  obtain ⟨info, heval⟩ := h.eval
  have hform := evaluate_readForm h hfile steps
  rw [readString, hok] at hform
  exact evaluate_call_one (by decide) (get?_loading heval (by decide)) rfl hform .nil

theorem evaluate_loadBody_error {cause : ReadFault}
    (herror : Source.read (loadText (fileText content)) = .error cause) :
    evaluate (steps + 5) loadBody u.frames.size (u.loading path) = .fault (.reading cause) (u.loading path) := by
  obtain ⟨info, heval⟩ := h.eval
  have hform := evaluate_readForm h hfile steps
  rw [readString, herror] at hform
  exact evaluate_call_one_fault (by decide) (get?_loading heval (by decide)) rfl hform .nil

end File

/-- A call of `load-file` comes to what its body comes to. -/
theorem loadFile_comes {s : State} {frame : FrameId} {e : Value} (hname : s.get? frame "load-file" = some loadFile)
    (harg : ∃ n, evaluate n e frame s = .value (.str path) u) (o : Outcome Value) :
    Comes (fun n => evaluate n (.ofList [.symbol "load-file", e]) frame) s o ↔
      Comes (fun n => evaluate n loadBody u.frames.size) (u.loading path) o := by
  obtain ⟨m, hm⟩ := (evaluate_climbs e frame).comes (o := .value (.str path) u) (harg.imp fun n hn => ⟨hn, trivial⟩)
  refine comes_iff_of_eq (evaluate_climbs _ _) (evaluate_climbs _ _) (m := m) (j := 2) (k := 1) (fun n hn => ?_) o
  exact evaluate_call_one (by decide) hname rfl (hm (n + 1) (by omega)) .nil

end Call

/-! ## The definition -/

section Definition

open Source

/-- The form of the definition. -/
def loadFileForm : Value :=
  .ofList [.symbol "def!", .symbol "load-file", .ofList [.symbol "fn*", .ofList [.symbol "f"], loadBody]]

theorem readAll_loadFileDefinition : readAll loadFileDefinition = ⟨[loadFileForm], none, []⟩ := by
  have htokens : tokens loadFileDefinition.toList = [.opening .round, .word "def!".toList, .word "load-file".toList,
      .opening .round, .word "fn*".toList, .opening .round, .word "f".toList, .closing .round,
      .opening .round, .word "eval".toList, .opening .round, .word "read-string".toList,
      .opening .round, .word "str".toList, .text "\"(do \"".toList,
      .opening .round, .word "slurp".toList, .word "f".toList, .closing .round, .text "\"\\nnil)\"".toList,
      .closing .round, .closing .round, .closing .round, .closing .round, .closing .round] := by decide +kernel
  rw [readAll, htokens]
  rfl

/-- The prelude has the definition on its second and third line. -/
theorem loadFileDefinition_mem : ∃ before after, standardPrelude = before ++ loadFileDefinition ++ after := by
  have hlines : loadFileDefinition =
      "(def! load-file" ++ "\n" ++ "  (fn* (f) (eval (read-string (str \"(do \" (slurp f) \"\\nnil)\")))))" := by
    decide +kernel
  have hassoc : ∀ a b c d newline : String, a ++ newline ++ (b ++ newline ++ (c ++ newline ++ d)) =
      a ++ newline ++ (b ++ newline ++ c) ++ (newline ++ d) := by
    simp only [String.append_assoc, implies_true]
  rw [hlines, standardPrelude, String.intercalate_cons_cons, String.intercalate_cons_cons, String.intercalate_cons_cons]
  exact ⟨_, _, hassoc _ _ _ _ _⟩

/-- The definition binds `load-file` in the root frame. -/
theorem eval_loadFileDefinition {s : State} (hdefine : ∀ v, s.get? rootFrame "def!" = some v → v.isMacro = false)
    (hfunction : ∀ v, s.get? rootFrame "fn*" = some v → v.isMacro = false) (steps : Nat) :
    Session.eval (steps + 2) loadFileDefinition s = .value loadFile (s.define rootFrame "load-file" loadFile) := by
  have hvalue : evaluate (steps + 1) (.ofList [.symbol "fn*", .ofList [.symbol "f"], loadBody]) rootFrame s =
      .value loadFile s := (evaluate_unexpanded hfunction steps _ .nil).trans rfl
  rw [Session.eval_eq_evaluate readAll_loadFileDefinition]
  refine (evaluate_unexpanded hdefine (steps + 1) _ .nil).trans ?_
  -- the parts and the name are as they have to be
  exact Run.bind_eq_value.2 ⟨_, s, rfl, Run.bind_eq_value.2 ⟨"load-file", s, rfl,
    Run.bind_eq_value.2 ⟨loadFile, s, hvalue, rfl⟩⟩⟩

/-- A session that knows `load-file` and finds one file. -/
def loader (content : String) : State :=
  (Session.eval 2 loadFileDefinition (State.initial [] (.ofList [("a.mal", content)]) "" true 0)).state

theorem loader_eq (content : String) : loader content =
    (State.initial [] (.ofList [("a.mal", content)]) "" true 0).define rootFrame "load-file" loadFile :=
  congrArg Outcome.state (eval_loadFileDefinition (fun _ hv => by cases hv) (fun _ hv => by cases hv) 0)

theorem loader_get? (content : String) : (loader content).get? rootFrame "load-file" = some loadFile := by
  rw [loader_eq]
  rfl

theorem loader_canLoad (content : String) : (loader content).CanLoad := by
  rw [loader_eq]
  exact ⟨⟨.nil, rfl⟩, ⟨.nil, rfl⟩, ⟨.nil, rfl⟩, ⟨.nil, rfl⟩, fun v hv => by cases hv⟩

theorem loader_lookup? (content : String) :
    (loader content).files.lookup? (Path.ofString "a.mal") = some (.ok content) := by
  have hpath : Path.ofString "a.mal" = ⟨"", ["a.mal"]⟩ := by decide +kernel
  have htext : (Path.mk "" ["a.mal"]).toString = "a.mal" := by decide +kernel
  have hname : "a.mal".contains '\x00' = false := by simp
  have hlength : ¬Files.pathLimit < "a.mal".utf8ByteSize := by decide
  have hfiles : (loader content).files = .tree [(["a.mal"], content)] := by
    rw [loader_eq]
    show Files.ofList _ = _
    rw [Files.ofList, List.map_singleton, hpath]
  rw [hfiles, Files.lookup?, hpath, htext, hname, if_neg Bool.false_ne_true, if_neg hlength]
  rfl

theorem loader_argument (content : String) :
    ∃ n, evaluate n (.str "a.mal") rootFrame (loader content) = .value (.str "a.mal") (loader content) := ⟨1, rfl⟩

end Definition

/-! ## Files that are read -/

section Forms

variable {s u : State} {frame : FrameId} {e : Value} {path content : String} {forms : List Value}
  {rest : List Source.Token}

/-- The forms of a file, and then `nil`. -/
def evalFile (eval : Evaluator) (forms : List Value) : Run Value := do
  let _ ← evalEach eval rootFrame forms
  return .nil

theorem evalFile_climbs (forms : List Value) : Climbs fun n => evalFile (evaluate n) forms :=
  .bind (fun _ _ hmn => below_continuing.evalEach (evaluate_below hmn) rootFrame forms) fun _ => .const _

/-- Loading a file comes to what the form does that is read from its text. -/
theorem loadFile_comes_form {form : Value} (hname : s.get? frame "load-file" = some loadFile)
    (harg : ∃ n, evaluate n e frame s = .value (.str path) u) (h : u.CanLoad)
    (hfile : u.files.lookup? (Path.ofString path) = some (.ok content))
    (hread : Source.read (loadText (fileText content)) = .ok (some form)) (o : Outcome Value) :
    Comes (fun n => evaluate n (.ofList [.symbol "load-file", e]) frame) s o ↔
      Comes (fun n => evaluate n form rootFrame) (u.loading path) o :=
  (loadFile_comes hname harg o).trans (comes_iff_of_eq (evaluate_climbs _ _) (evaluate_climbs _ _)
    (fun n (_ : n ≥ 0) => evaluate_loadBody_ok h hfile n hread) o)

/-- Loading a file that is read without a fault comes to what its forms in a row come to. -/
theorem loadFile_comes_forms (hname : s.get? frame "load-file" = some loadFile)
    (harg : ∃ n, evaluate n e frame s = .value (.str path) u) (h : u.CanLoad)
    (hfile : u.files.lookup? (Path.ofString path) = some (.ok content))
    (hread : Source.readAll (fileText content) = ⟨forms, none, rest⟩) (o : Outcome Value) :
    Comes (fun n => evaluate n (.ofList [.symbol "load-file", e]) frame) s o ↔
      Comes (fun n => evalFile (evaluate n) forms) (u.loading path) o := by
  have hdo : ∀ v, (u.loading path).get? rootFrame "do" = some v → v.isMacro = false := by
    obtain ⟨_, heval⟩ := h.eval
    intro v hv
    exact h.inOrder v ((State.get?_root_addFrame (State.lt_size_of_get? heval) _ _).symm.trans hv)
  refine (loadFile_comes_form hname harg h hfile (Source.read_loadText_of_forms hread) o).trans ?_
  exact comes_iff_of_eq (evaluate_climbs _ _) (evalFile_climbs forms) (j := 2) (k := 1)
    (fun n (_ : n ≥ 0) => evaluate_inOrder hdo (n + 1) forms .nil) o

/-- Calling `load-file` on a file that is read without a fault evaluates its forms in order in the root
frame and returns `nil`. If one of them fails, its fault comes out, in the state that it was raised in:
the forms before it have been evaluated, no form after it is. -/
theorem loadFile_evaluates (hname : s.get? frame "load-file" = some loadFile)
    (harg : ∃ n, evaluate n e frame s = .value (.str path) u) (h : u.CanLoad)
    (hfile : u.files.lookup? (Path.ofString path) = some (.ok content))
    (hread : Source.readAll (fileText content) = ⟨forms, none, rest⟩) :
    (∀ v t, (∃ n, evaluate n (.ofList [.symbol "load-file", e]) frame s = .value v t) ↔
      v = .nil ∧ ∃ n values, evalEach (evaluate n) rootFrame forms (u.loading path) = .value values t) ∧
    (∀ fault t, (∃ n, evaluate n (.ofList [.symbol "load-file", e]) frame s = .fault fault t) ↔
      ∃ n before form after values t', forms = before ++ form :: after ∧
        evalEach (evaluate n) rootFrame before (u.loading path) = .value values t' ∧
        evaluate n form rootFrame t' = .fault fault t) := by
  have hcomes := loadFile_comes_forms hname harg h hfile hread
  refine ⟨fun v t => (comes_value_iff.symm.trans (hcomes _)).trans (comes_value_iff.trans ?_),
    fun fault t => (comes_fault_iff.symm.trans (hcomes _)).trans (comes_fault_iff.trans ?_)⟩
  · constructor
    · rintro ⟨n, hn⟩
      obtain ⟨values, t', hvalues, hnil⟩ := Run.bind_eq_value.1 hn
      cases hnil
      exact ⟨rfl, n, values, hvalues⟩
    · rintro ⟨rfl, n, values, hvalues⟩
      exact ⟨n, Run.bind_eq_value.2 ⟨values, t, hvalues, rfl⟩⟩
  · refine exists_congr fun n => ?_
    constructor
    · intro hn
      obtain hfault | ⟨_, _, _, hnil⟩ := Run.bind_eq_fault.1 hn
      · exact evalEach_eq_fault.1 hfault
      · cases hnil
    · exact fun hfault => Run.bind_eq_fault.2 (.inl (evalEach_eq_fault.2 hfault))

/-- A file with brackets in a comment and in a string, and without a last newline. -/
def commentedFile : String := "; two forms (\n(def! x \")\")\n(prn x) ; and no newline"

theorem loadFile_evaluates_commentedFile : ∃ n t,
    evaluate n (.ofList [.symbol "load-file", .str "a.mal"]) rootFrame (loader commentedFile) = .value .nil t ∧
      t.output = "\")\"\n" := by
  let forms : List Value :=
    [.ofList [.symbol "def!", .symbol "x", .str ")"], .ofList [.symbol "prn", .symbol "x"]]
  have hread : Source.readAll (fileText commentedFile) = ⟨forms, none, []⟩ := by rfl
  have hforms : ∃ t, evalEach (evaluate 3) rootFrame forms ((loader commentedFile).loading "a.mal") =
      .value [.str ")", .nil] t ∧ t.output = "\")\"\n" := by
    rw [loader_eq]
    exact ⟨_, rfl, rfl⟩
  obtain ⟨t, hvalues, houtput⟩ := hforms
  have h := loadFile_evaluates (loader_get? commentedFile) (loader_argument _) (loader_canLoad _)
    (loader_lookup? _) hread
  obtain ⟨n, hn⟩ := (h.1 .nil t).2 ⟨rfl, 3, _, hvalues⟩
  exact ⟨n, t, hn, houtput⟩

end Forms

/-! ## Files with a fault -/

section Faults

open Source

variable {s u : State} {frame : FrameId} {e : Value} {path content : String}

/-- The fault of a text comes out before anything of it is evaluated. -/
theorem loadFile_fault {cause : ReadFault} (hname : s.get? frame "load-file" = some loadFile)
    (harg : ∃ n, evaluate n e frame s = .value (.str path) u) (h : u.CanLoad)
    (hfile : u.files.lookup? (Path.ofString path) = some (.ok content))
    (hread : read (loadText (fileText content)) = .error cause) :
    ∃ n, evaluate n (.ofList [.symbol "load-file", e]) frame s = .fault (.reading cause) (u.loading path) :=
  comes_fault_iff.1 ((loadFile_comes hname harg _).2
    (comes_fault_iff.2 ⟨5, evaluate_loadBody_error h hfile 0 hread⟩))

/-- Calling `load-file` on a file with a fault of the syntax raises a fault of the syntax, and no form of
the file is evaluated, with two exceptions. A file that closes the list itself stands for the forms
before the closing bracket, and what follows it is not looked at. A file that ends in prefixes, which
want one more form, gets the `nil` for it. -/
theorem loadFile_malformed {forms : List Value} {fault : ReadFault} {rest : List Token}
    (hname : s.get? frame "load-file" = some loadFile)
    (harg : ∃ n, evaluate n e frame s = .value (.str path) u) (h : u.CanLoad)
    (hfile : u.files.lookup? (Path.ofString path) = some (.ok content))
    (hread : readAll (fileText content) = ⟨forms, some fault, rest⟩) (hsyntactic : fault.IsSyntactic) :
    (¬ClosesEarly .round (tokens (fileText content).toList) → ¬EndsWanting (tokens (fileText content).toList) →
      ∃ n cause, cause.IsSyntactic ∧
        evaluate n (.ofList [.symbol "load-file", e]) frame s = .fault (.reading cause) (u.loading path)) ∧
    (ClosesEarly .round (tokens (fileText content).toList) →
      ∃ trees after, tokens (fileText content).toList = yieldAll trees ++ .closing .round :: after ∧
        ∀ o, Comes (fun n => evaluate n (.ofList [.symbol "load-file", e]) frame) s o ↔
          Comes (fun n => evaluate n (.ofList (.symbol "do" :: denoteAll trees)) rootFrame) (u.loading path) o) ∧
    (EndsWanting (tokens (fileText content).toList) →
      ∃ trees, yieldAll trees = tokens (fileText content).toList ++ [.word "nil".toList] ∧
        ∀ o, Comes (fun n => evaluate n (.ofList [.symbol "load-file", e]) frame) s o ↔
          Comes (fun n => evaluate n (.ofList (.symbol "do" :: denoteAll trees)) rootFrame) (u.loading path) o) := by
  refine ⟨fun hcloses hwanting => ?refused, fun hcloses => ?closes, fun hwanting => ?wanting⟩
  case refused =>
    have hfault : (allForms (tokens (fileText content).toList)).fault? = some fault := congrArg Reading.fault? hread
    have hscanned : ∀ token ∈ tokens (fileText content).toList, token.Scanned := fun token ht =>
      scanned_of_mem_tokens ht
    obtain ⟨cause, hcause, hc⟩ := (readFrom_malformed_iff [.symbol "do"] hscanned hfault hsyntactic).2
      ⟨hcloses, hwanting⟩
    obtain ⟨n, hn⟩ := loadFile_fault hname harg h hfile ((read_loadText _).trans hcause)
    exact ⟨n, cause, hc, hn⟩
  case closes =>
    obtain ⟨trees, after, htokens, hitems⟩ := readFrom_of_closesEarly [.symbol "do"] hcloses lastNil
    refine ⟨trees, after, htokens, loadFile_comes_form hname harg h hfile ?_⟩
    rw [read_loadText, hitems]
    rfl
  case wanting =>
    obtain ⟨trees, t, hyield, hitems⟩ := readFrom_of_endsWanting [.symbol "do"] hwanting
    refine ⟨trees ++ [t], hyield, loadFile_comes_form hname harg h hfile ?_⟩
    rw [read_loadText, hitems]
    rfl

/-- A file with a bracket that is not closed. -/
def unclosedFile : String := "(prn 1) [2"

theorem loadFile_malformed_unclosedFile : ∃ n cause t, cause.IsSyntactic ∧
    evaluate n (.ofList [.symbol "load-file", .str "a.mal"]) rootFrame (loader unclosedFile) =
      .fault (.reading cause) t ∧ t.output = "" := by
  let ts := tokens (fileText unclosedFile).toList
  have hread : readAll (fileText unclosedFile) = ⟨[.ofList [.symbol "prn", .int 1]], some (.unclosed .square), []⟩ := by
    rfl
  have hfault : (allForms ts).fault? = some (.unclosed .square) := congrArg Reading.fault? hread
  have hscanned : ∀ token ∈ ts, token.Scanned := fun token ht => scanned_of_mem_tokens ht
  have hmalformed : Malformed (readFrom [.items .round [.symbol "do"]] (ts ++ lastNil)).1 :=
    ⟨.unexpectedClosing .round, rfl, trivial⟩
  obtain ⟨hcloses, hwanting⟩ := (readFrom_malformed_iff [.symbol "do"] hscanned hfault trivial).1 hmalformed
  have h := loadFile_malformed (loader_get? unclosedFile) (loader_argument _) (loader_canLoad _) (loader_lookup? _)
    hread trivial
  obtain ⟨n, cause, hcause, hn⟩ := h.1 hcloses hwanting
  refine ⟨n, cause, _, hcause, hn, ?_⟩
  rw [loader_eq]
  rfl

/-- A file with a closing bracket too many. -/
def closingFile : String := "(def! x 1) ) (def! y 2)"

/-- The file is not refused: its first form is evaluated, and nothing shows of the bracket. -/
theorem loadFile_closingFile :
    (readAll (fileText closingFile)).fault? = some (.unexpectedClosing .round) ∧
    (∃ n t, evaluate n (.ofList [.symbol "load-file", .str "a.mal"]) rootFrame (loader closingFile) =
      .value (.int 1) t ∧ t.get? rootFrame "x" = some (.int 1)) ∧
    ∀ n fault t, evaluate n (.ofList [.symbol "load-file", .str "a.mal"]) rootFrame (loader closingFile) ≠
      .fault fault t := by
  let form : Value := .ofList [.symbol "do", .ofList [.symbol "def!", .symbol "x", .int 1]]
  have hread : read (loadText (fileText closingFile)) = .ok (some form) := by rfl
  have hform : ∃ t, evaluate 3 form rootFrame ((loader closingFile).loading "a.mal") = .value (.int 1) t ∧
      t.get? rootFrame "x" = some (.int 1) := by
    rw [loader_eq]
    exact ⟨_, rfl, rfl⟩
  obtain ⟨t, ht, hx⟩ := hform
  have hcomes := loadFile_comes_form (loader_get? closingFile) (loader_argument _) (loader_canLoad _) (loader_lookup? _)
    hread
  obtain ⟨n, hn⟩ := comes_value_iff.1 ((hcomes _).2 (comes_value_iff.2 ⟨3, ht⟩))
  refine ⟨by rfl, ⟨n, t, hn, hx⟩, fun m fault u hm => ?_⟩
  -- the call ends in one way only
  have hunique := evaluate_unique (m := m) (n := n) (by rw [hm]; trivial) (by rw [hn]; trivial)
  rw [hm, hn] at hunique
  cases hunique

end Faults

end SmallLisp
