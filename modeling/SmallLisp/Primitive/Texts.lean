/-
Strings, names, printing, reading and files. Section 6.1 of the specification.
-/
import SmallLisp.Shape
import SmallLisp.Source.Form

namespace SmallLisp.Texts

def symbol (_ : FrameId) (args : List Value) : Run Value := do
  match ← Run.exactlyOne "symbol" args with
  | .str text => pure (.symbol text)
  | _ => Run.failKind (.notText "symbol")

def keyword (_ : FrameId) (args : List Value) : Run Value := do
  match ← Run.exactlyOne "keyword" args with
  | .keyword name => pure (.keyword name)
  | .str text => pure (.keyword text)
  | _ => Run.failKind (.notText "keyword")

def prStr (_ : FrameId) (args : List Value) : Run Value := do
  return .str (" ".intercalate (← args.mapM Run.shown))

def str (_ : FrameId) (args : List Value) : Run Value := do
  return .str (String.join (← args.mapM Run.plain))

def prn (_ : FrameId) (args : List Value) : Run Value := do
  Run.print (" ".intercalate (← args.mapM Run.shown) ++ "\n")
  return .nil

def println (_ : FrameId) (args : List Value) : Run Value := do
  Run.print (" ".intercalate (← args.mapM Run.plain) ++ "\n")
  return .nil

/-- The first form of a text, or nil if it holds none. -/
def readString (_ : FrameId) (args : List Value) : Run Value := do
  match ← Run.exactlyOne "read-string" args with
  | .str text =>
    match Source.read text with
    | .ok form? => pure (form?.getD .nil)
    | .error cause => Run.fail (.reading cause)
  | _ => Run.failKind (.notText "read-string")

/-- The content of a file. -/
def slurp (_ : FrameId) (args : List Value) : Run Value := do
  match ← Run.exactlyOne "slurp" args with
  | .str text => return .str (← Run.readFile (Path.ofString text))
  | _ => Run.failKind (.notFileName "slurp")

/-- Prints a question and reads a line; nil at the end of the input. -/
def readline (_ : FrameId) (args : List Value) : Run Value := do
  Run.print (← Run.plain (← Run.exactlyOne "readline" args))
  match ← Run.nextLine with
  | some line => pure (.str line)
  | none => pure .nil

end SmallLisp.Texts
