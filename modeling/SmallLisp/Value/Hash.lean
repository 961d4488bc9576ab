/-
Hashes of values. A map finds its entries by the hashes of their keys and compares only keys whose hashes are
the same. How numbers, texts, rows of hashes and sets of hashes are hashed is left open, but for what equality
needs: equal numbers hash alike, and a set hashes the same in whatever order its hashes come. Section 3 of the
specification.
-/
import SmallLisp.Value.Equal

namespace SmallLisp

/-- A way of hashing what values are made of. A function is hashed by what it is, since it equals nothing. -/
structure Hashing where
  nil : Int
  bool : Bool → Int
  number : Number → Int
  text : String → Int
  function : Value → Int
  row : List Int → Int
  set : List Int → Int
  number_congr : ∀ {m n : Number}, m.order? n = some .eq → number m = number n
  set_perm : ∀ {codes codes' : List Int}, codes.Perm codes' → set codes = set codes'

namespace Hashing

variable (hashing : Hashing)

/-- The hash of what has a kind and a name. -/
def named (kind name : String) : Int := hashing.row [hashing.text kind, hashing.text name]

mutual

/-- The hash of a value; a value in which a cell occurs has none. Lists and vectors hash alike. -/
def hash? : Value → Option Int
  | .nil => some hashing.nil
  | .bool b => some (hashing.bool b)
  | .int n => some (hashing.number (.int n))
  | .float x => some (hashing.number (.float x))
  | .str text => some (hashing.text text)
  | .symbol name => some (hashing.named (Value.symbol name).kindName name)
  | .keyword name => some (hashing.named (Value.keyword name).kindName name)
  | .list items _ => (hashAll? items).map hashing.row
  | .vector items _ => (hashAll? items).map hashing.row
  | .map entries _ => (hashEntries? entries).map hashing.set
  | .cell _ => none
  | .closure params body frame isMacro info => some (hashing.function (.closure params body frame isMacro info))
  | .primitive p isMacro info => some (hashing.function (.primitive p isMacro info))
termination_by structural v => v

/-- The hashes of items, in order. -/
def hashAll? : List Value → Option (List Int)
  | [] => some []
  | v :: vs => do
    let code ← hash? v
    let codes ← hashAll? vs
    return code :: codes
termination_by structural vs => vs

/-- The hashes of entries, each that of the row of its key and its value. -/
def hashEntries? : List (Value × Value) → Option (List Int)
  | [] => some []
  | (k, v) :: entries => do
    let key ← hash? k
    let value ← hash? v
    let codes ← hashEntries? entries
    return hashing.row [key, value] :: codes
termination_by structural entries => entries

end

/-- The entry that is found under a key among those that are probed, of which only those with the hash of the key are
compared with it. Nothing is looked up under a key that has no hash. -/
def lookup? (cells : Array Value) (probed : Entries) (key : Value) : Option (Option (Value × Value)) := do
  let code ← hashing.hash? key
  return List.find? (fun entry => hashing.hash? entry.1 == some code && Value.equal cells entry.1 key) probed

end Hashing

end SmallLisp
