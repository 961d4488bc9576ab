/-
The primitives: the functions that exist before any program has run, as names only. What each of them does
stands in the modules below `Primitive`. Section 6.1 of the specification.
-/

namespace SmallLisp

/-- The order tests on numbers. -/
inductive Comparison where
  | less | lessEq | greater | greaterEq
  deriving DecidableEq

/-- The questions about a single value. -/
inductive Query where
  | isNil | isTrue | isFalse | isSymbol | isKeyword | isString | isNumber | isFunction | isMacro
  | isList | isVector | isSequential | isMap | isCell
  deriving DecidableEq

inductive Primitive where
  | add | subtract | multiply | divide
  | equals | compare (c : Comparison) | query (q : Query)
  | symbol | keyword | list | vector | hashMap
  | cons | concat | count | isEmpty | first | rest | nth | conj | seq | vec | apply | map
  | assoc | dissoc | get | contains | keys | vals
  | prStr | str | prn | println | readString | slurp | readline
  | atom | deref | reset | swap
  | getMeta | withMeta | throw | timeMs | eval
  deriving DecidableEq

namespace Comparison

def name : Comparison → String
  | .less => "<" | .lessEq => "<=" | .greater => ">" | .greaterEq => ">="

def all : List Comparison := [.less, .lessEq, .greater, .greaterEq]

end Comparison

namespace Query

def name : Query → String
  | .isNil => "nil?" | .isTrue => "true?" | .isFalse => "false?" | .isSymbol => "symbol?"
  | .isKeyword => "keyword?" | .isString => "string?" | .isNumber => "number?"
  | .isFunction => "fn?" | .isMacro => "macro?" | .isList => "list?" | .isVector => "vector?"
  | .isSequential => "sequential?" | .isMap => "map?" | .isCell => "atom?"

def all : List Query :=
  [.isNil, .isTrue, .isFalse, .isSymbol, .isKeyword, .isString, .isNumber, .isFunction, .isMacro,
    .isList, .isVector, .isSequential, .isMap, .isCell]

end Query

namespace Primitive

/-- The symbol that a primitive is bound to at the start of a session. -/
def name : Primitive → String
  | .add => "+" | .subtract => "-" | .multiply => "*" | .divide => "/"
  | .equals => "=" | .compare c => c.name | .query q => q.name
  | .symbol => "symbol" | .keyword => "keyword" | .list => "list" | .vector => "vector"
  | .hashMap => "hash-map"
  | .cons => "cons" | .concat => "concat" | .count => "count" | .isEmpty => "empty?"
  | .first => "first" | .rest => "rest" | .nth => "nth" | .conj => "conj" | .seq => "seq"
  | .vec => "vec" | .apply => "apply" | .map => "map"
  | .assoc => "assoc" | .dissoc => "dissoc" | .get => "get" | .contains => "contains?"
  | .keys => "keys" | .vals => "vals"
  | .prStr => "pr-str" | .str => "str" | .prn => "prn" | .println => "println"
  | .readString => "read-string" | .slurp => "slurp" | .readline => "readline"
  | .atom => "atom" | .deref => "deref" | .reset => "reset!" | .swap => "swap!"
  | .getMeta => "meta" | .withMeta => "with-meta" | .throw => "throw" | .timeMs => "time-ms"
  | .eval => "eval"

/-- Every primitive, in the order in which a session binds them. -/
def all : List Primitive :=
  [.add, .subtract, .multiply, .divide, .equals] ++ Comparison.all.map .compare ++
    Query.all.map .query ++
    [.symbol, .keyword, .list, .vector, .hashMap, .cons, .concat, .count, .isEmpty, .first, .rest,
      .nth, .conj, .seq, .vec, .apply, .map, .assoc, .dissoc, .get, .contains, .keys, .vals, .prStr,
      .str, .prn, .println, .readString, .slurp, .readline, .atom, .deref, .reset, .swap, .getMeta,
      .withMeta, .throw, .timeMs, .eval]

theorem mem_all (p : Primitive) : p ∈ all := by
  cases p with
  | compare c => cases c <;> decide
  | query q => cases q <;> decide
  | _ => decide

end Primitive

end SmallLisp
