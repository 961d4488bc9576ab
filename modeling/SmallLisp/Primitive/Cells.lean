/-
Cells, metadata, the clock, and the primitives that call a function they are given. `call` is how a function
is called. Section 6.1 of the specification.
-/
import SmallLisp.Shape

namespace SmallLisp

/-- A way to call a function with arguments, given the frame from which it is called as well. -/
abbrev Caller := Value → List Value → FrameId → Run Value

namespace Cells

def atom (_ : FrameId) (args : List Value) : Run Value := do
  return .cell (← Run.newCell (← Run.exactlyOne "atom" args))

def deref (_ : FrameId) (args : List Value) : Run Value := do
  Run.content (← Run.requireCell "deref" (← Run.exactlyOne "deref" args))

def reset (_ : FrameId) (args : List Value) : Run Value := do
  let (cell, content) ← Run.exactlyTwo "reset!" args
  Run.setContent (← Run.requireCell "reset!" cell) content
  return content

/-- Sets a cell to what a function makes of its content, which the function gets first. -/
def swap (call : Caller) (frame : FrameId) (args : List Value) : Run Value := do
  let (cell, function, extra) ← Run.twoOrMore "swap!" args
  let id ← Run.requireCell "swap!" cell
  let content ← call function ((← Run.content id) :: extra) frame
  Run.setContent id content
  return content

end Cells

namespace Calls

/-- Calls a function with the arguments that are given one by one and those in a last sequence. -/
def apply (call : Caller) (frame : FrameId) (args : List Value) : Run Value := do
  let (function, second, others) ← Run.twoOrMore "apply" args
  let given := second :: others
  let last ← Run.sequence "apply" (given.getLastD .nil)
  call function (given.dropLast ++ last) frame

/-- Calls a function with each item of a sequence. -/
def map (call : Caller) (frame : FrameId) (args : List Value) : Run Value := do
  let (function, v) ← Run.exactlyTwo "map" args
  let items ← Run.sequence "map" v
  return .ofList (← items.mapM fun item => call function [item] frame)

/-- Raises a value as a fault. -/
def throw (_ : FrameId) (args : List Value) : Run Value := do
  let v ← Run.exactlyOne "throw" args
  Run.fail (.thrown v (← Run.inspected v))

end Calls

namespace Metadata

def get (_ : FrameId) (args : List Value) : Run Value := do
  return (← Run.exactlyOne "meta" args).info

/-- A copy of a value with other metadata. -/
def set (_ : FrameId) (args : List Value) : Run Value := do
  let (v, info) ← Run.exactlyTwo "with-meta" args
  match v.withInfo? info with
  | some v => pure v
  | none => Run.failKind (.noMetadata v.kindName)

end Metadata

end SmallLisp
