/-
The text of values. `textWith` writes a value for a program's user, readably or plain; `inspectWith` writes it
in the notation of fault messages. What stands for a cell is a parameter, since only the store knows the
content. An integer beyond the digit limit has no text. Values are written however deep they nest; `callsWith`
tells how deep the calls nest that do so. Section 6.3 of the specification.
-/
import SmallLisp.Binary64.Decimal
import SmallLisp.Fault
import SmallLisp.Text.Quoting

namespace SmallLisp.Value

/-- The least magnitude of an integer that has too many digits to be written. -/
def unwritable : Nat := Nat.pow 10 digitLimit

def integerText (n : Int) : Except Fault String :=
  if n.natAbs < unwritable then .ok (toString n) else .error .integerTooLong

def boolText (b : Bool) : String := if b then "true" else "false"

def enclosed (opening separator closing : String) (parts : List String) : String :=
  opening ++ separator.intercalate parts ++ closing

/-! ## For users -/

mutual

/-- The text of a value; only `readable` text puts quotes around strings. -/
def textWith (readable : Bool) (cell : CellId → Except Fault String) : Value → Except Fault String
  | .nil => .ok "nil"
  | .bool b => .ok (boolText b)
  | .int n => integerText n
  | .float x => .ok x.toText
  | .str text =>
    .ok (if readable then "\"" ++ String.ofList (Text.escape text.toList) ++ "\"" else text)
  | .symbol name => .ok name
  | .keyword name => .ok (":" ++ name)
  | .list items _ => (textsWith readable cell items).map (enclosed "(" " " ")")
  | .vector items _ => (textsWith readable cell items).map (enclosed "[" " " "]")
  | .map entries _ => (entryTextsWith readable cell entries).map (enclosed "\x7b" " " "\x7d")
  | .cell id => cell id
  | .closure _ _ _ isMacro _ => .ok (if isMacro then "#<macro>" else "#<function>")
  | .primitive _ isMacro _ => .ok (if isMacro then "#<macro>" else "#<function>")
termination_by structural v => v

/-- The texts of the items of a sequence. -/
def textsWith (readable : Bool) (cell : CellId → Except Fault String) :
    List Value → Except Fault (List String)
  | [] => .ok []
  | v :: vs => do
    let text ← textWith readable cell v
    let texts ← textsWith readable cell vs
    .ok (text :: texts)
termination_by structural vs => vs

/-- The texts of the keys and values of a map, in turn. -/
def entryTextsWith (readable : Bool) (cell : CellId → Except Fault String) :
    List (Value × Value) → Except Fault (List String)
  | [] => .ok []
  | (k, v) :: entries => do
    let key ← textWith readable cell k
    let value ← textWith readable cell v
    let texts ← entryTextsWith readable cell entries
    .ok (key :: value :: texts)
termination_by structural entries => entries

end

/-! ## For fault messages -/

mutual

/-- A value in the notation of fault messages: every compound and name is headed by its kind. -/
def inspectWith (cell : CellId → Except Fault String) : Value → Except Fault String
  | .nil => .ok "nil"
  | .bool b => .ok (boolText b)
  | .int n => integerText n
  | .float x => .ok x.toText
  | .str text => .ok (Text.quoted text)
  | .symbol name => .ok ("Symbol(" ++ Text.quoted name ++ ")")
  | .keyword name => .ok ("Keyword(" ++ Text.quoted name ++ ")")
  | .list items _ => (inspectAllWith cell items).map (enclosed "List([" ", " "])")
  | .vector items _ => (inspectAllWith cell items).map (enclosed "Vector([" ", " "])")
  | .map entries _ =>
    (inspectEntriesWith cell entries).map (enclosed "HashMap(\x7b" ", " "\x7d)")
  | .cell id => cell id
  | .closure params body _ _ _ => do
    let forms ← inspectAllWith cell body
    let body := String.join (forms.map (" " ++ ·))
    .ok ("(fn* (" ++ " ".intercalate params.names ++ ")" ++ body ++ ")")
  | .primitive p _ _ => .ok ("<builtin " ++ p.name ++ ">")
termination_by structural v => v

def inspectAllWith (cell : CellId → Except Fault String) : List Value → Except Fault (List String)
  | [] => .ok []
  | v :: vs => do
    let text ← inspectWith cell v
    let texts ← inspectAllWith cell vs
    .ok (text :: texts)
termination_by structural vs => vs

/-- The entries of a map, each as key and value with a colon between. -/
def inspectEntriesWith (cell : CellId → Except Fault String) :
    List (Value × Value) → Except Fault (List String)
  | [] => .ok []
  | (k, v) :: entries => do
    let key ← inspectWith cell k
    let value ← inspectWith cell v
    let texts ← inspectEntriesWith cell entries
    .ok ((key ++ ": " ++ value) :: texts)
termination_by structural entries => entries

end

/-! ## Cells

A chain of cells, each inside the content of the one before, visits no cell twice unless a cell
holds itself, so as many steps as there are cells reach the end of every finite text. -/

/-- The text of a cell, looking through at most `depth` cells. -/
def cellText (readable : Bool) (cells : Array Value) : (depth : Nat) → CellId → Except Fault String
  | 0, _ => .error .endlessText
  | depth + 1, id =>
    (textWith readable (cellText readable cells depth) (cells.getD id .nil)).map
      fun content => "(atom " ++ content ++ ")"

def cellInspection (cells : Array Value) : (depth : Nat) → CellId → Except Fault String
  | 0, _ => .error .endlessText
  | depth + 1, id =>
    (inspectWith (cellInspection cells depth) (cells.getD id .nil)).map
      fun content => "Atom(" ++ content ++ ")"

/-- The text of a value over a store of cells. -/
def text (readable : Bool) (cells : Array Value) (v : Value) : Except Fault String :=
  textWith readable (cellText readable cells cells.size) v

/-- A value in the notation of fault messages, over a store of cells. -/
def inspect (cells : Array Value) (v : Value) : Except Fault String :=
  inspectWith (cellInspection cells cells.size) v

/-! ## Nesting

Calls nest where a value is written, as deep as the value does. -/

/-- How many calls one level of a value takes. -/
structure Nesting where
  /-- For a list, a vector or a map, beside those for its parts. -/
  compound : Nat
  /-- For a cell, beside those for its content. -/
  cell : Nat
  /-- For a closure, beside those for its body, if that is written at all. -/
  closure? : Option Nat

/-- The calls of `textWith`. -/
def Nesting.text : Nesting := ⟨4, 1, none⟩

/-- The calls of `inspectWith`. -/
def Nesting.inspection : Nesting := ⟨3, 2, some 5⟩

mutual

/-- How deep the calls nest that write a value. -/
def callsWith (n : Nesting) (cell : CellId → Nat) : Value → Nat
  | .list items _ => n.compound + callsOfAllWith n cell items
  | .vector items _ => n.compound + callsOfAllWith n cell items
  | .map entries _ => n.compound + callsOfEntriesWith n cell entries
  | .cell id => cell id
  | .closure _ body _ _ _ =>
    match n.closure? with
    | some ownCalls => ownCalls + callsOfAllWith n cell body
    | none => 1
  | _ => 1
termination_by structural v => v

def callsOfAllWith (n : Nesting) (cell : CellId → Nat) : List Value → Nat
  | [] => 0
  | v :: vs => max (callsWith n cell v) (callsOfAllWith n cell vs)
termination_by structural vs => vs

def callsOfEntriesWith (n : Nesting) (cell : CellId → Nat) : List (Value × Value) → Nat
  | [] => 0
  | (k, v) :: entries =>
    max (max (callsWith n cell k) (callsWith n cell v)) (callsOfEntriesWith n cell entries)
termination_by structural entries => entries

end

/-- The calls for a cell, looking through at most `depth` cells. -/
def cellCalls (n : Nesting) (cells : Array Value) : (depth : Nat) → CellId → Nat
  | 0, _ => 0
  | depth + 1, id => n.cell + callsWith n (cellCalls n cells depth) (cells.getD id .nil)

/-- How deep the calls nest that write a value over a store of cells. -/
def calls (n : Nesting) (cells : Array Value) (v : Value) : Nat :=
  callsWith n (cellCalls n cells cells.size) v

end SmallLisp.Value
