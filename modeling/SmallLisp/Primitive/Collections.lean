/-
Lists, vectors and maps. Every sequence that results is a new one without metadata, and every key is checked
before it is stored or looked up; nil counts as an empty sequence and as the empty map. Section 6.1 of the
specification.
-/
import SmallLisp.Shape

/-! ## Sequences -/

namespace SmallLisp.Sequences

def cons (_ : FrameId) (args : List Value) : Run Value := do
  let (head, tail) ← Run.exactlyTwo "cons" args
  return .ofList (head :: (← Run.sequence "cons" tail))

def concat (_ : FrameId) (args : List Value) : Run Value := do
  let sequences ← args.mapM (Run.sequence "concat")
  return .ofList sequences.flatten

/-- The number of items, entries or characters. -/
def count (_ : FrameId) (args : List Value) : Run Value := do
  match ← Run.exactlyOne "count" args with
  | .map entries _ => pure (.int entries.length)
  | .str text => pure (.int text.length)
  | v => return .int (← Run.sequence "count" v).length

def isEmpty (frame : FrameId) (args : List Value) : Run Value := do
  let v ← Run.exactlyOne "empty?" args
  match ← count frame [v] with
  | .int n => pure (.bool (n == 0))
  | _ => pure (.bool false)

def first (_ : FrameId) (args : List Value) : Run Value := do
  let items ← Run.sequence "first" (← Run.exactlyOne "first" args)
  return items.headD .nil

def rest (_ : FrameId) (args : List Value) : Run Value := do
  let items ← Run.sequence "rest" (← Run.exactlyOne "rest" args)
  return .ofList items.tail

/-- The item at an index, counted from 0. -/
def nth (_ : FrameId) (args : List Value) : Run Value := do
  let (v, index) ← Run.exactlyTwo "nth" args
  let items ← Run.sequence "nth" v
  match index with
  | .int n =>
    if n < 0 then Run.fail .indexOutOfRange
    else match items[n.toNat]? with
      | some item => pure item
      | none => Run.fail .indexOutOfRange
  | _ => Run.failKind .indexNotInteger

/-- Adds items one by one: at the back of a vector, at the front of a list. -/
def conj (_ : FrameId) (args : List Value) : Run Value := do
  let (v, items) ← Run.oneOrMore "conj" args
  match v with
  | .vector old _ => pure (.ofVector (old ++ items))
  | v => return .ofList (items.reverse ++ (← Run.sequence "conj" v))

/-- A list of the items or characters, or nil if there are none. -/
def seq (_ : FrameId) (args : List Value) : Run Value := do
  let items ← match ← Run.exactlyOne "seq" args with
    | .str text => pure (text.toList.map fun c => .str (String.singleton c))
    | v => Run.sequence "seq" v
  return if items.isEmpty then .nil else .ofList items

def vec (_ : FrameId) (args : List Value) : Run Value := do
  return .ofVector (← Run.sequence "vec" (← Run.exactlyOne "vec" args))

end SmallLisp.Sequences

/-! ## Maps -/

namespace SmallLisp.Maps

/-- The entries that a row of keys and values writes. -/
def newEntries (_ : FrameId) (args : List Value) : Run Entries := do
  if args.length % 2 = 1 then Run.failKind .oddEntries
  else
    let entries := Entries.pairs args
    entries.forM fun entry => Run.requireKey "hash-map" entry.1
    return Entries.ofList entries

def hashMap (frame : FrameId) (args : List Value) : Run Value := do
  return .ofEntries (← newEntries frame args)

def assoc (frame : FrameId) (args : List Value) : Run Value := do
  let (v, rest) ← Run.oneOrMore "assoc" args
  let entries ← Run.entries "assoc" v
  return .ofEntries (entries.merge (← newEntries frame rest))

/-- Removes keys one by one. -/
def eraseKeys (entries : Entries) : List Value → Run Entries
  | [] => pure entries
  | key :: keys => do
    Run.requireKey "dissoc" key
    eraseKeys (entries.erase key) keys

def dissoc (_ : FrameId) (args : List Value) : Run Value := do
  let (v, keys) ← Run.oneOrMore "dissoc" args
  let entries ← Run.entries "dissoc" v
  return .ofEntries (← eraseKeys entries keys)

def get (_ : FrameId) (args : List Value) : Run Value := do
  let (v, key) ← Run.exactlyTwo "get" args
  let entries ← Run.entries "get" v
  Run.requireKey "get" key
  return (entries.find? key).getD .nil

def contains (_ : FrameId) (args : List Value) : Run Value := do
  let (v, key) ← Run.exactlyTwo "contains?" args
  Run.requireKey "contains?" key
  return .bool ((← Run.entries "contains?" v).contains key)

def keys (_ : FrameId) (args : List Value) : Run Value := do
  return .ofList ((← Run.entries "keys" (← Run.exactlyOne "keys" args)).map (·.1))

def vals (_ : FrameId) (args : List Value) : Run Value := do
  return .ofList ((← Run.entries "vals" (← Run.exactlyOne "vals" args)).map (·.2))

end SmallLisp.Maps
