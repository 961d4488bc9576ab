/-
Forms from tokens. The reader keeps the constructs that it is inside of on a stack and takes one token at a
time, so reading ends with the tokens. A complete form goes to the innermost construct, or is the result if
there is none. Section 4.1 of the specification.
-/
import SmallLisp.Source.Atom
import SmallLisp.Value.Equal

namespace SmallLisp.Source

/-- A construct that is not complete. -/
inductive Context where
  /-- A bracket, with the items so far, latest first. -/
  | items (b : Bracket) (read : List Value)
  /-- A mark that wants its form. -/
  | operand (m : Mark)
  /-- A caret that wants the metadata. -/
  | metadata
  /-- A caret with its metadata that wants the form. -/
  | target (info : Value)

/-- The fault of a source that ends inside a construct. -/
def Context.endFault : Context → ReadFault
  | .items b _ => .unclosed b
  | .operand m => .endOfSource ("form after " ++ Text.quoted m.lexeme)
  | .metadata => .endOfSource "metadata after '^'"
  | .target _ => .endOfSource "form after '^' metadata"

/-- What reading has come to after a form or a token. -/
inductive Progress where
  /-- A form outside all constructs. -/
  | complete (form : Value)
  | inside (stack : List Context)
  /-- A fault of the token, which is taken. -/
  | failed (fault : ReadFault)
  /-- A fault that leaves the token in place. -/
  | refused (fault : ReadFault)

/-- Hands a complete form to the innermost construct. -/
def deliver : List Context → Value → Progress
  | [], form => .complete form
  | .items b read :: stack, form => .inside (.items b (form :: read) :: stack)
  | .operand m :: stack, form => deliver stack (.ofList [.symbol m.head, form])
  | .metadata :: stack, form => .inside (.target form :: stack)
  | .target info :: stack, form => deliver stack (.ofList [.symbol "with-meta", form, info])

/-- The compound of a closed bracket. -/
def compound (b : Bracket) (items : List Value) : Except ReadFault Value :=
  match b with
  | .round => .ok (.ofList items)
  | .square => .ok (.ofVector items)
  | .curly =>
    if items.length % 2 = 0 then .ok (.ofEntries (Entries.ofList (Entries.pairs items)))
    else .error .oddMap

/-- Takes one token. A closing bracket ends the innermost construct only if it matches it. -/
def accept (stack : List Context) : Token → Progress
  | .opening b => .inside (.items b [] :: stack)
  | .mark m => .inside (.operand m :: stack)
  | .caret => .inside (.metadata :: stack)
  | .text chars => atom chars
  | .word chars => atom chars
  | .closing b =>
    match stack with
    | .items b' read :: stack =>
      if b = b' then
        match compound b read.reverse with
        | .ok form => deliver stack form
        | .error fault => .failed fault
      else .refused (.unexpectedClosing b)
    | _ => .refused (.unexpectedClosing b)
where
  atom (chars : List Char) : Progress :=
    match atomValue chars with
    | .ok form => deliver stack form
    | .error fault => .failed fault

/-! ## One form -/

/-- Reads on inside of constructs up to the first complete form: that form, or none where the tokens
end outside all constructs, and the tokens that are left. -/
def readFrom : List Context → List Token → Except ReadFault (Option Value) × List Token
  | [], [] => (.ok none, [])
  | context :: _, [] => (.error context.endFault, [])
  | stack, token :: tokens =>
    match accept stack token with
    | .complete form => (.ok (some form), tokens)
    | .inside stack => readFrom stack tokens
    | .failed fault => (.error fault, tokens)
    | .refused fault => (.error fault, token :: tokens)

/-- The next form of a row of tokens. -/
def nextForm (tokens : List Token) : Except ReadFault (Option Value) × List Token :=
  readFrom [] tokens

/-- The next form of a row of tokens, where its end is a fault that names what was expected. -/
def requireForm (expected : String) (tokens : List Token) :
    Except ReadFault (Option Value) × List Token :=
  if tokens.isEmpty then (.error (.endOfSource expected), []) else nextForm tokens

/-! ## All forms -/

/-- The forms of a source up to its end or to the first fault. -/
structure Reading where
  forms : List Value
  fault? : Option ReadFault
  /-- The tokens that are left; there are some only after a fault. -/
  rest : List Token

/-- Reads on inside of constructs to the end, with the forms so far, latest first. -/
def readAllFrom : List Context → List Value → List Token → Reading
  | [], forms, [] => ⟨forms.reverse, none, []⟩
  | context :: _, forms, [] => ⟨forms.reverse, some context.endFault, []⟩
  | stack, forms, token :: tokens =>
    match accept stack token with
    | .complete form => readAllFrom [] (form :: forms) tokens
    | .inside stack => readAllFrom stack forms tokens
    | .failed fault => ⟨forms.reverse, some fault, tokens⟩
    | .refused fault => ⟨forms.reverse, some fault, token :: tokens⟩

def allForms (tokens : List Token) : Reading := readAllFrom [] [] tokens

/-! ## Texts -/

/-- The first form of a text. -/
def read (text : String) : Except ReadFault (Option Value) :=
  (nextForm (tokens text.toList)).1

/-- Every form of a text. -/
def readAll (text : String) : Reading := allForms (tokens text.toList)

end SmallLisp.Source
