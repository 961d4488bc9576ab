/-
The special forms: the lists whose head is one of ten symbols, which are not calls. A macro of the same name
goes before them, any other binding does not. One of them, the quasiquoted template, becomes code. Sections
4.3 and 4.4 of the specification.
-/
import SmallLisp.Fault

namespace SmallLisp

inductive SpecialForm where
  | define | defineMacro | letIn | inOrder | conditional | function | quote | quasiquote | expand
  | guarded
  deriving DecidableEq

namespace SpecialForm

def name : SpecialForm → String
  | .define => "def!" | .defineMacro => "defmacro!" | .letIn => "let*" | .inOrder => "do"
  | .conditional => "if" | .function => "fn*" | .quote => "quote" | .quasiquote => "quasiquote"
  | .expand => "macroexpand" | .guarded => "try*"

def all : List SpecialForm :=
  [.define, .defineMacro, .letIn, .inOrder, .conditional, .function, .quote, .quasiquote, .expand,
    .guarded]

def ofName? (name : String) : Option SpecialForm := all.find? fun form => form.name == name

/-- The special form that the head of a list stands for. -/
def ofHead? : Value → Option SpecialForm
  | .symbol name => ofName? name
  | _ => none

theorem ofName?_name (form : SpecialForm) : ofName? form.name = some form := by
  cases form <;> decide

end SpecialForm

end SmallLisp

/-! ## Templates

A template becomes code that rebuilds it with `cons` and `concat`; the holes of the template are the parts of that code
that are evaluated. -/

namespace SmallLisp.Template

/-- The code that yields a form unevaluated. -/
def quoting (form : Value) : Value := .ofList [.symbol "quote", form]

/-- The form in a hole, which has exactly one. -/
def hole (name : String) : List Value → Except ArityFault Value
  | [form] => .ok form
  | [] => .error (.tooFew name)
  | _ => .error (.tooMany name)

mutual

/-- The code that rebuilds a template; `quasiquote` in the specification. A list headed by `unquote` is a hole. -/
def code : Value → Except ArityFault Value
  | .list [] info => .ok (quoting (.list [] info))
  | .vector [] info => .ok (quoting (.vector [] info))
  | .list (item :: items) _ => itemsCode true (item :: items)
  | .vector (item :: items) _ => itemsCode false (item :: items)
  | form => .ok (quoting form)
termination_by structural form => form

/-- The code that rebuilds a row of items as a list. What is left of a list after some items is
treated like a list of its own, so `unquote` before the last item makes a hole of it. -/
def itemsCode (isList : Bool) : List Value → Except ArityFault Value
  | [] => .ok (quoting (.ofList []))
  | item :: items =>
    match isList, item with
    | true, .symbol "unquote" => hole "unquote" items
    | _, item =>
      match item.argumentsOf? "splice-unquote" with
      | some args => do
        let spliced ← hole "splice-unquote" args
        let rest ← itemsCode true items
        .ok (.ofList [.symbol "concat", spliced, rest])
      | none => do
        let first ← code item
        let rest ← itemsCode true items
        .ok (.ofList [.symbol "cons", first, rest])
termination_by structural items => items

end

end SmallLisp.Template
