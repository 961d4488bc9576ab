/-
Runs: computations over a session's state. A run ends with a value or a fault, both with the state
that it has led to, or halts for want of something. Only an ended run says anything about a program;
a halted one is repeated with what it wanted.
-/
import SmallLisp.State
import SmallLisp.Value.Text

namespace SmallLisp

/-- What a halted run waits for. -/
inductive Need where
  /-- More steps than it was given. -/
  | steps
  /-- A line that has not been typed. -/
  | line
  /-- A file that nobody has looked for. -/
  | file (path : String)
  deriving DecidableEq

inductive Outcome (α : Type) where
  | value (a : α) (s : State)
  | fault (f : Fault) (s : State)
  | halted (need : Need) (s : State)

def Run (α : Type) : Type := State → Outcome α

namespace Run

variable {α β : Type}

@[inline] def pure (a : α) : Run α := fun s => .value a s

@[inline] def bind (x : Run α) (f : α → Run β) : Run β := fun s =>
  match x s with
  | .value a s => f a s
  | .fault fault s => .fault fault s
  | .halted need s => .halted need s

instance : Monad Run where
  pure := pure
  bind := bind

@[inline] def fail (f : Fault) : Run α := fun s => .fault f s

@[inline] def halt (need : Need) : Run α := fun s => .halted need s

@[inline] def modify (f : State → State) : Run Unit := fun s => .value () (f s)

/-- A computation that only looks at the state. -/
@[inline] def ask (f : State → Except Fault α) : Run α := fun s =>
  match f s with
  | .ok a => .value a s
  | .error fault => .fault fault s

@[inline] def ofExcept (x : Except Fault α) : Run α := ask fun _ => x

/-- Hands a fault to a handler, together with the state in which it arose. Nothing is undone. -/
@[inline] def handle (x : Run α) (handler : Fault → Run α) : Run α := fun s =>
  match x s with
  | .value a s => .value a s
  | .fault fault s => handler fault s
  | .halted need s => .halted need s

@[simp] theorem pure_apply (a : α) (s : State) : (Pure.pure a : Run α) s = .value a s := rfl

theorem bind_apply (x : Run α) (f : α → Run β) (s : State) :
    (x >>= f) s = match x s with
      | .value a s => f a s
      | .fault fault s => .fault fault s
      | .halted need s => .halted need s := rfl

instance : LawfulMonad Run :=
  LawfulMonad.mk' Run
    (fun x => by
      funext s
      show (match x s with
        | .value a s => .value a s
        | .fault fault s => .fault fault s
        | .halted need s => .halted need s) = x s
      cases x s <;> rfl)
    (fun _ _ => rfl)
    (fun x f g => by
      funext s
      simp only [bind_apply]
      cases x s <;> rfl)

/-! ## Texts of values -/

/-- The readable text of a value. -/
def shown (v : Value) : Run String := ask fun s => v.text true s.cells

/-- The plain text of a value. -/
def plain (v : Value) : Run String := ask fun s => v.text false s.cells

/-- A value in the notation of fault messages. -/
def inspected (v : Value) : Run String := ask fun s => v.inspect s.cells

def failKind (cause : KindFault) : Run α := fail (.kind cause)

/-- A fault that shows a value readably. -/
def failShowing (v : Value) (cause : String → KindFault) : Run α := do
  failKind (cause (← shown v))

/-- A fault that shows a value in the notation of fault messages. -/
def failInspecting (v : Value) (cause : String → KindFault) : Run α := do
  failKind (cause (← inspected v))

/-! ## Frames -/

/-- Adds a frame, inside another one unless it is to stand alone. -/
def newFrame (outer : Option FrameId) (bindings : Bindings) : Run FrameId := fun s =>
  .value s.frames.size (s.addFrame ⟨outer, bindings⟩)

def define (frame : FrameId) (name : String) (value : Value) : Run Unit :=
  modify (·.define frame name value)

/-- The value of a name that must be bound. -/
def lookup (frame : FrameId) (name : String) : Run Value := fun s =>
  match s.get? frame name with
  | some value => .value value s
  | none => .fault (.unbound name) s

/-! ## Cells, console, files and clock -/

def newCell (content : Value) : Run CellId := fun s => .value s.cells.size (s.addCell content)

def content (id : CellId) : Run Value := fun s => .value (s.content id) s

def setContent (id : CellId) (content : Value) : Run Unit := modify (·.setContent id content)

def print (text : String) : Run Unit := modify (·.print text)

def report (text : String) : Run Unit := modify (·.report text)

/-- The next line of the console, or nothing at its end. -/
def nextLine : Run (Option String) := fun s =>
  match s.nextLine with
  | .line text rest => .value (some text) { s with input := rest }
  | .ended => .value none s
  | .waiting => .halted .line s

/-- The content of a file, or why there is none. -/
def tryReadFile (path : Path) : Run (Except FileFault String) := fun s =>
  match s.files.lookup? path with
  | some (.ok text) => .value (.ok (String.ofList (unifyNewlines text.toList))) s
  | some (.error fault) => .value (.error fault) s
  | none => .halted (.file path.toString) s

def readFile (path : Path) : Run String := do
  match ← tryReadFile path with
  | .ok text => pure text
  | .error fault => fail (.file fault)

/-- Reads the clock, which moves on with every reading. -/
def readClock : Run Nat := fun s => .value s.clock { s with clock := s.clock + 1 }

end Run

end SmallLisp
