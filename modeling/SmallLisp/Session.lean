/-
Sessions: a root frame with the primitives and the prelude, and texts that are evaluated in it one after the
other. Each form of a text is evaluated before a fault further on in the text shows. Sections 1 and 6.2 of the
specification.
-/
import SmallLisp.Evaluation
import SmallLisp.Settings

namespace SmallLisp

/-! ## The prelude -/

/-- The definitions that a session evaluates before any program unless it is given others. `load-file` puts a newline
before the closing bracket, so that a comment at the end of the file does not hide it. -/
def standardPrelude : String := "\n".intercalate [
  "(def! not (fn* (a) (if a false true)))",
  "(def! load-file",
  "  (fn* (f) (eval (read-string (str \"(do \" (slurp f) \"\\nnil)\")))))",
  "(defmacro! cond",
  "  (fn* (& xs)",
  "    (if (> (count xs) 0)",
  "      (list 'if (first xs)",
  "            (if (> (count xs) 1)",
  "              (nth xs 1)",
  "              (throw \"odd number of forms to cond\"))",
  "            (cons 'cond (rest (rest xs)))))))",
  "(defmacro! or",
  "  (fn* (& xs)",
  "    (if (empty? xs)",
  "      nil",
  "      (if (= 1 (count xs))",
  "        (first xs)",
  "        `(let* (or__value ~(first xs))",
  "           (if or__value or__value (or ~@(rest xs))))))))"]

/-- Which definitions a session starts with. -/
inductive PreludeChoice where
  /-- Those of the prelude file that the settings name, or of the standard prelude. -/
  | fromSettings
  | absent
  | source (text : String)

/-- The bindings of the root frame before the prelude. -/
def rootBindings (arguments : List String) : Bindings :=
  Primitive.all.map (fun p => (p.name, .primitive p false .nil)) ++
    [("*ARGV*", .ofList (arguments.map .str))]

/-- The state of a session that has done nothing yet. -/
def State.initial (arguments : List String) (files : Files) (input : String) (inputEnded : Bool)
    (clock : Nat) : State where
  frames := #[⟨none, rootBindings arguments⟩]
  cells := #[]
  output := ""
  errors := ""
  input := input.toList
  inputEnded := inputEnded
  files := files
  clock := clock
  callLimit := Settings.defaultLimit.toNat

namespace Session

/-! ## Texts -/

/-- Evaluates forms in the root frame, and hands each value on with the result so far. -/
def foldForms {α : Type} (steps : Nat) (f : α → Value → Run α) : α → List Value → Run α
  | result, [] => pure result
  | result, form :: forms => do
    let value ← evaluate steps form rootFrame
    foldForms steps f (← f result value) forms

/-- Evaluates the forms of a text, then raises the fault that ended its reading, if any. -/
def foldText {α : Type} (steps : Nat) (f : α → Value → Run α) (start : α) (text : String) :
    Run α := do
  let reading := Source.readAll text
  let result ← foldForms steps f start reading.forms
  match reading.fault? with
  | none => pure result
  | some cause => Run.fail (.reading cause)

/-- The value of the last form of a text; nil if it has none. -/
def eval (steps : Nat) (text : String) : Run Value :=
  foldText steps (fun _ value => pure value) .nil text

/-- The text of the value of the last form; nothing if there is no form. Each value is written
before the next form is evaluated. -/
def rep (steps : Nat) (text : String) : Run (Option String) :=
  foldText steps (fun _ value => do return some (← Run.shown value)) none text

/-! ## Start -/

/-- Evaluates the prelude that the settings name. A directory without a prelude is a fault. -/
def loadPrelude (steps : Nat) (settings : Settings) : Run Unit := do
  match ← settings.preludeDirectory? with
  | none => let _ ← eval steps standardPrelude
  | some directory =>
    let path := directory.child Settings.preludeFile
    match ← Run.tryReadFile path with
    | .ok text => let _ ← eval steps text
    | .error (.nameTooLong text) => Run.fail (.file (.nameTooLong text))
    | .error _ => Run.fail (.file (.noPrelude path.toString))

/-- Whether a fault says that a file is missing. -/
def isMissingFile : Fault → Bool
  | .file (.missing _) => true
  | .file (.noPrelude _) => true
  | _ => false

/-- Evaluates the prelude of choice and returns the warnings. A session goes on without a prelude
file that is missing; every other fault ends it. -/
def start (steps : Nat) (settings : Settings) (choice : PreludeChoice) : Run (List String) :=
  match choice with
  | .absent => pure []
  | .source text => do
    let _ ← eval steps text
    return []
  | .fromSettings =>
    (do loadPrelude steps settings; return []).handle fun fault =>
      if isMissingFile fault then pure [fault.message] else Run.fail fault

end Session

end SmallLisp
