/-
What calls and special forms demand of their arguments: how many there are, of which kind they are, and
whether a value can be a key. Section 7 of the specification.
-/
import SmallLisp.Run
import SmallLisp.Value.Equal

namespace SmallLisp

/-- Whether a count lies between two bounds; no upper bound admits all. -/
def checkCount (name : String) (count lower : Int) (upper : Option Int) : Except Fault Unit :=
  if count < lower then .error (.arity (.tooFew name))
  else match upper with
    | none => .ok ()
    | some upper => if upper < count then .error (.arity (.tooMany name)) else .ok ()

/-- Whether the argument at an index, counted from 0, is of one of several kinds. -/
def checkKind (name : String) (index : Nat) (kinds : List FormKind) (argument : Value) :
    Except Fault Unit :=
  if kinds.any (·.admits argument) then .ok ()
  else .error (.kind (.argument (index + 1) name kinds))

namespace Run

/-! ## Counts -/

def exactlyOne (name : String) : List Value → Run Value
  | [a] => pure a
  | [] => fail (.arity (.tooFew name))
  | _ => fail (.arity (.tooMany name))

def exactlyTwo (name : String) : List Value → Run (Value × Value)
  | [a, b] => pure (a, b)
  | _ :: _ :: _ => fail (.arity (.tooMany name))
  | _ => fail (.arity (.tooFew name))

def oneOrMore (name : String) : List Value → Run (Value × List Value)
  | a :: rest => pure (a, rest)
  | [] => fail (.arity (.tooFew name))

def twoOrMore (name : String) : List Value → Run (Value × Value × List Value)
  | a :: b :: rest => pure (a, b, rest)
  | _ => fail (.arity (.tooFew name))

/-! ## Kinds -/

/-- The name of a symbol that a form demands at an index. -/
def requireSymbol (name : String) (index : Nat) : Value → Run String
  | .symbol symbol => pure symbol
  | _ => failKind (.argument (index + 1) name [.symbol])

/-- The items of a list or vector that a form demands at an index. -/
def requireItems (name : String) (index : Nat) (form : Value) : Run (List Value) :=
  match form.items? with
  | some items => pure items
  | none => failKind (.argument (index + 1) name [.list, .vector])

/-- The items of a list or vector; nil counts as empty. -/
def sequence (name : String) (v : Value) : Run (List Value) :=
  match v with
  | .nil => pure []
  | v =>
    match v.items? with
    | some items => pure items
    | none => failShowing v (.notSequence name)

/-- The entries of a map; nil counts as empty. -/
def entries (name : String) : Value → Run Entries
  | .nil => pure []
  | .map entries _ => pure entries
  | v => failShowing v (.notMap name)

/-- The numbers among which nothing else may be. -/
def numbers (name : String) : List Value → Run (List Number)
  | [] => pure []
  | v :: vs =>
    match v.number? with
    | some n => do
      let ns ← numbers name vs
      pure (n :: ns)
    | none => failShowing v (.notNumber name)

def requireCell (name : String) : Value → Run CellId
  | .cell id => pure id
  | v => failShowing v (.notCell name)

/-- Checks that a value can be a key: it is no function, and no cell occurs in it. -/
def requireKey (name : String) (key : Value) : Run Unit :=
  if key.isFunction then failKind (.functionKey name)
  else if key.isImmutable then pure ()
  else failShowing key (.mutableKey name)

end Run

end SmallLisp
