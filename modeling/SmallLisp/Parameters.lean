/-
Parameter lists: which ones are well formed, and how they bind arguments. Binding is defined on any list of
forms; for the list of a `Parameters` the only faults left are wrong argument counts. Section 4.2 of the
specification.
-/
import SmallLisp.Run

namespace SmallLisp

namespace Parameters

theorem restMark_notMem_takeWhile (names : List String) :
    restMark ∉ names.takeWhile (· != restMark) := by
  induction names with
  | nil => simp
  | cons name names ih =>
    rw [List.takeWhile_cons]
    split
    · next h => simp_all [Ne.symm]
    · simp

/-- Splits a list of names at the rest mark, which stands before the last name or nowhere. -/
def ofNames? (names : List String) : Option Parameters :=
  let required := names.takeWhile (· != restMark)
  match names.dropWhile (· != restMark) with
  | [] => some ⟨required, none, restMark_notMem_takeWhile names⟩
  | [_, rest] => some ⟨required, some rest, restMark_notMem_takeWhile names⟩
  | _ => none

/-- The names of a list of symbols; anything else among them is a fault. -/
def symbolNames : List Value → Run (List String)
  | [] => pure []
  | .symbol name :: forms => do
    let names ← symbolNames forms
    pure (name :: names)
  | form :: _ => Run.failInspecting form .parameterNotSymbol

/-- The parameters that a list of forms writes. -/
def ofForms (forms : List Value) : Run Parameters := do
  match ofNames? (← symbolNames forms) with
  | some params => pure params
  | none => Run.failKind .malformedRest

/-- The parameter list as forms. -/
def forms (p : Parameters) : List Value := p.names.map .symbol

end Parameters

/-! ## Binding -/

/-- How a parameter that got no argument is named. -/
def parameterLabel : Value → Run String
  | .symbol name => pure name
  | .keyword name => pure (":" ++ name)
  | .str text => pure text
  | form => Run.inspected form

def isRestMark : Value → Bool
  | .symbol name => name == restMark
  | _ => false

/-- The bindings with one more, whose name must be a symbol. -/
def Bindings.bindForm (bindings : Bindings) (name value : Value) : Run Bindings :=
  match name with
  | .symbol name => pure (bindings.bind name value)
  | form => Run.failInspecting form .undefinable

/-- Binds a name in a frame; the name must be a symbol. -/
def Run.defineForm (frame : FrameId) (name value : Value) : Run Unit :=
  match name with
  | .symbol name => Run.define frame name value
  | form => Run.failInspecting form .undefinable

/-- Binds parameters to arguments from the left. The parameter after the rest mark gets all that are
left, and binding ends there. -/
def bindForms (bindings : Bindings) : (forms arguments : List Value) → Run Bindings
  | [], [] => pure bindings
  | [], extra => do Run.fail (.arity (.extra (← extra.mapM Run.inspected)))
  | form :: forms, arguments =>
    if isRestMark form then
      match forms with
      | [] => Run.fail .restNameMissing
      | rest :: _ => bindings.bindForm rest (.ofList arguments)
    else
      match arguments with
      | [] => do
        let missing := (form :: forms).takeWhile (!isRestMark ·)
        Run.fail (.arity (.missing (← missing.mapM parameterLabel)))
      | argument :: arguments => do
        bindForms (← bindings.bindForm form argument) forms arguments

/-- The bindings of a call. -/
def Parameters.bind (p : Parameters) (arguments : List Value) : Run Bindings :=
  bindForms [] p.forms arguments

end SmallLisp
