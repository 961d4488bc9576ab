/-
Values. Programs and data share them: the reader makes the forms that the evaluator takes, and both sides work
on the same lists, vectors and maps. Section 3 of the specification.
-/
import SmallLisp.Binary64.Basic
import SmallLisp.Primitive

namespace SmallLisp

/-- The place of a cell in the store. -/
abbrev CellId := Nat

/-- The place of a frame in the store. -/
abbrev FrameId := Nat

/-- The symbol that announces the rest parameter. -/
def restMark : String := "&"

/-- What a function binds its arguments to: one name per leading argument, and perhaps one name for
the list of those that follow. -/
structure Parameters where
  required : List String
  rest : Option String
  restMark_notMem : restMark ∉ required := by decide
  deriving DecidableEq

/-- The parameter list as it is written. -/
def Parameters.names (p : Parameters) : List String :=
  p.required ++ match p.rest with
    | none => []
    | some name => [restMark, name]

/-- `info` is the metadata that a value carries, nil unless some was given. The keys of a map are
in the order in which they were first added. -/
inductive Value where
  | nil
  | bool (b : Bool)
  | int (n : Int)
  | float (x : Binary64)
  | str (text : String)
  | symbol (name : String)
  | keyword (name : String)
  | list (items : List Value) (info : Value)
  | vector (items : List Value) (info : Value)
  | map (entries : List (Value × Value)) (info : Value)
  | cell (id : CellId)
  | closure (params : Parameters) (body : List Value) (frame : FrameId) (isMacro : Bool)
    (info : Value)
  | primitive (p : Primitive) (isMacro : Bool) (info : Value)

instance : Inhabited Value := ⟨.nil⟩

namespace Value

/-! ## Making values -/

def ofList (items : List Value) : Value := .list items .nil

def ofVector (items : List Value) : Value := .vector items .nil

def ofEntries (entries : List (Value × Value)) : Value := .map entries .nil

/-! ## Kinds -/

/-- The name of a value's kind, as faults and listings show it. -/
def kindName : Value → String
  | .nil => "NilType"
  | .bool _ => "Boolean"
  | .int _ => "int"
  | .float _ => "float"
  | .str _ => "str"
  | .symbol _ => "Symbol"
  | .keyword _ => "Keyword"
  | .list .. => "List"
  | .vector .. => "Vector"
  | .map .. => "HashMap"
  | .cell _ => "Atom"
  | .closure .. => "Lambda"
  | .primitive .. => "Builtin"

/-- Everything except nil and false counts as true. -/
def isTruthy : Value → Bool
  | .nil => false
  | .bool b => b
  | _ => true

def isFunction : Value → Bool
  | .closure .. => true
  | .primitive .. => true
  | _ => false

def isMacro : Value → Bool
  | .closure _ _ _ isMacro _ => isMacro
  | .primitive _ isMacro _ => isMacro
  | _ => false

/-- The items of a list or a vector. -/
def items? : Value → Option (List Value)
  | .list items _ => some items
  | .vector items _ => some items
  | _ => none

/-- What follows the head of a list that is headed by a certain symbol. -/
def argumentsOf? (head : String) : Value → Option (List Value)
  | .list (.symbol name :: args) _ => if name == head then some args else none
  | _ => none

/-! ## Metadata -/

/-- The metadata of a value; nil for a value that carries none. -/
def info : Value → Value
  | .list _ info => info
  | .vector _ info => info
  | .map _ info => info
  | .closure _ _ _ _ info => info
  | .primitive _ _ info => info
  | _ => .nil

/-- The same value with other metadata, if values of its kind carry any. -/
def withInfo? (v info : Value) : Option Value :=
  match v with
  | .list items _ => some (.list items info)
  | .vector items _ => some (.vector items info)
  | .map entries _ => some (.map entries info)
  | .closure params body frame isMacro _ => some (.closure params body frame isMacro info)
  | .primitive p isMacro _ => some (.primitive p isMacro info)
  | _ => none

/-- The macro that a function becomes; the function itself is left as it is. -/
def asMacro? : Value → Option Value
  | .closure params body frame _ info => some (.closure params body frame true info)
  | .primitive p _ info => some (.primitive p true info)
  | _ => none

end Value

end SmallLisp
