/-
The state of a session: frames, cells, and the ends of the console, the disk and the clock that a program can
reach. Frames and cells are only ever added; a frame is older than every frame that has it as its outer one.
Sections 3 and 4.2 of the specification.
-/
import SmallLisp.Files
import SmallLisp.Value

namespace SmallLisp

/-- Names and their values, in the order in which they were first bound. -/
abbrev Bindings := List (String × Value)

namespace Bindings

def find? (bindings : Bindings) (name : String) : Option Value :=
  match bindings with
  | [] => none
  | (bound, value) :: bindings => if bound == name then some value else find? bindings name

/-- A name that is bound again keeps its place. -/
def bind (name : String) (value : Value) : Bindings → Bindings
  | [] => [(name, value)]
  | (bound, old) :: bindings =>
    if bound == name then (bound, value) :: bindings else (bound, old) :: bind name value bindings

/-- Binds names one after the other. -/
def bindAll (bindings new : Bindings) : Bindings :=
  new.foldl (fun bindings binding => bind binding.1 binding.2 bindings) bindings

end Bindings

/-- The bindings of one scope, and the scope around it. -/
structure Frame where
  outer : Option FrameId
  bindings : Bindings
  deriving Inhabited

structure State where
  frames : Array Frame
  cells : Array Value
  /-- What was printed, all of it. -/
  output : String
  /-- What was reported as an error, all of it. -/
  errors : String
  /-- What was typed and not read yet. -/
  input : List Char
  /-- Whether nothing more will be typed. -/
  inputEnded : Bool
  files : Files
  /-- The next reading of the clock, in milliseconds. -/
  clock : Nat
  /-- How deep the calls may nest that write a value for a report. -/
  callLimit : Nat

/-- The frame that holds the primitives. -/
def rootFrame : FrameId := 0

namespace State

/-! ## Frames -/

/-- Adds a frame; its place is the number of frames before. -/
def addFrame (s : State) (frame : Frame) : State := { s with frames := s.frames.push frame }

/-- The binding of a name in the nearest frame that has one, with that frame. A chain of outer
frames runs toward older ones, so it is no longer than the place of its first frame and one. -/
def resolveWithin (s : State) (name : String) : (steps : Nat) → FrameId → Option (FrameId × Value)
  | 0, _ => none
  | steps + 1, id =>
    match s.frames[id]? with
    | none => none
    | some frame =>
      match frame.bindings.find? name with
      | some value => some (id, value)
      | none =>
        match frame.outer with
        | none => none
        | some outer => s.resolveWithin name steps outer

def resolve? (s : State) (id : FrameId) (name : String) : Option (FrameId × Value) :=
  s.resolveWithin name (id + 1) id

/-- The nearest frame that binds a name. -/
def find? (s : State) (id : FrameId) (name : String) : Option FrameId :=
  (s.resolve? id name).map (·.1)

/-- The value of a name. -/
def get? (s : State) (id : FrameId) (name : String) : Option Value :=
  (s.resolve? id name).map (·.2)

/-- Binds a name in one frame. -/
def define (s : State) (id : FrameId) (name : String) (value : Value) : State :=
  { s with frames := s.frames.modify id fun frame =>
      { frame with bindings := frame.bindings.bind name value } }

/-! ## Cells -/

/-- Adds a cell; its place is the number of cells before. -/
def addCell (s : State) (content : Value) : State := { s with cells := s.cells.push content }

def content (s : State) (id : CellId) : Value := s.cells.getD id .nil

def setContent (s : State) (id : CellId) (content : Value) : State :=
  { s with cells := s.cells.set! id content }

/-! ## Console -/

def print (s : State) (text : String) : State := { s with output := s.output ++ text }

def report (s : State) (text : String) : State := { s with errors := s.errors ++ text }

/-- What the console answers when a line is asked for. -/
inductive LineAnswer where
  | line (text : String) (rest : List Char)
  | ended
  | waiting

/-- The next line, without its newline; the last line need not have one. -/
def nextLine (s : State) : LineAnswer :=
  let line := s.input.takeWhile (· != '\n')
  match s.input.dropWhile (· != '\n') with
  | _ :: rest => .line (String.ofList line) rest
  | [] =>
    if !s.inputEnded then .waiting
    else if line.isEmpty then .ended
    else .line (String.ofList line) []

end State

end SmallLisp
