/-
Equality of values, and the entries of maps, which the same relation finds. Numbers are compared exactly
across kinds, lists and vectors item by item with each other, maps without regard to order, cells by their
content; a function equals nothing. Section 3 of the specification.
-/
import SmallLisp.Number

namespace SmallLisp.Value

mutual

/-- Equality, given the equality of the contents of two cells. -/
def equalWith (cells : CellId → CellId → Bool) : Value → Value → Bool
  | .nil, .nil => true
  | .bool a, .bool b => a == b
  | .int m, .int n => m == n
  | .int m, .float y => (Number.int m).order? (.float y) == some .eq
  | .float x, .int n => (Number.float x).order? (.int n) == some .eq
  | .float x, .float y => (Number.float x).order? (.float y) == some .eq
  | .str a, .str b => a == b
  | .symbol a, .symbol b => a == b
  | .keyword a, .keyword b => a == b
  | .list as _, .list bs _ => allEqualWith cells as bs
  | .list as _, .vector bs _ => allEqualWith cells as bs
  | .vector as _, .list bs _ => allEqualWith cells as bs
  | .vector as _, .vector bs _ => allEqualWith cells as bs
  | .map as _, .map bs _ => as.length == bs.length && entriesWithin cells as bs
  | .cell a, .cell b => cells a b
  | _, _ => false
termination_by structural a => a

/-- Equality item by item. -/
def allEqualWith (cells : CellId → CellId → Bool) : List Value → List Value → Bool
  | [], [] => true
  | a :: as, b :: bs => equalWith cells a b && allEqualWith cells as bs
  | _, _ => false
termination_by structural as => as

/-- Whether each entry has an entry with an equal key and an equal value among `bs`. -/
def entriesWithin (cells : CellId → CellId → Bool) :
    List (Value × Value) → List (Value × Value) → Bool
  | [], _ => true
  | (k, v) :: as, bs =>
    (match bs.find? fun entry => equalWith cells k entry.1 with
      | some entry => equalWith cells v entry.2
      | none => false) && entriesWithin cells as bs
termination_by structural as => as

end

/-- Equality of the contents of two cells, looking through at most `depth` cells. Cells that hold themselves equal
none. -/
def cellsEqual (cells : Array Value) : (depth : Nat) → CellId → CellId → Bool
  | 0, _, _ => false
  | depth + 1, a, b => equalWith (cellsEqual cells depth) (cells.getD a .nil) (cells.getD b .nil)

/-- Equality of values over a store of cells. -/
def equal (cells : Array Value) (a b : Value) : Bool :=
  equalWith (cellsEqual cells cells.size) a b

/-! ## Keys -/

/-- Equality where no cell counts as equal to another; keys hold no cells. -/
def sameKey (a b : Value) : Bool := equalWith (fun _ _ => false) a b

mutual

/-- Whether no cell occurs in a value, in its items, its keys or its values. -/
def isImmutable : Value → Bool
  | .cell _ => false
  | .list items _ => allImmutable items
  | .vector items _ => allImmutable items
  | .map entries _ => entriesImmutable entries
  | _ => true
termination_by structural v => v

def allImmutable : List Value → Bool
  | [] => true
  | v :: vs => v.isImmutable && allImmutable vs
termination_by structural vs => vs

def entriesImmutable : List (Value × Value) → Bool
  | [] => true
  | (k, v) :: entries => k.isImmutable && v.isImmutable && entriesImmutable entries
termination_by structural entries => entries

end

end SmallLisp.Value

namespace SmallLisp

/-! ## Entries

Each key comes once. An entry that is added again keeps its place and its first key, and takes the new value. Keys are
the same if they are equal; values have no identity here, so a key that is not equal to itself is found by none. -/

abbrev Entries := List (Value × Value)

namespace Entries

/-- The value under a key. -/
def find? (entries : Entries) (key : Value) : Option Value :=
  (List.find? (fun entry => entry.1.sameKey key) entries).map (·.2)

def contains (entries : Entries) (key : Value) : Bool := (entries.find? key).isSome

def insert (key value : Value) : Entries → Entries
  | [] => [(key, value)]
  | entry :: entries =>
    if entry.1.sameKey key then (entry.1, value) :: entries else entry :: insert key value entries

def erase (key : Value) : Entries → Entries
  | [] => []
  | entry :: entries => if entry.1.sameKey key then entries else entry :: erase key entries

/-- Adds entries in order to those that are there. -/
def merge (entries new : Entries) : Entries :=
  new.foldl (fun entries entry => insert entry.1 entry.2 entries) entries

/-- The map of a list of entries. -/
def ofList (entries : Entries) : Entries := merge [] entries

/-- The items of a list in pairs; a last one that stands alone is left out. -/
def pairs : List Value → Entries
  | key :: value :: items => (key, value) :: pairs items
  | _ => []

end Entries

end SmallLisp
