/-
The command line: a prompt that evaluates one line after the other, or a file that is run with arguments.
Sections 1 and 7 of the specification.
-/
import SmallLisp.Session

namespace SmallLisp.CommandLine

/-! ## Prompt -/

def prompt : String := "user> "

/-- Whether the calls that write a value nest no deeper than they may. -/
def canNest (n : Value.Nesting) (value : Value) : Run Bool := fun s =>
  .value (value.calls n s.cells ≤ s.callLimit) s

/-- How a fault is reported: a thrown value by its text, any other by its message. A value that nests
too deep for the message of its fault has not been thrown at all, and is reported as being so; one that
nests too deep for its text alone makes the report fail. -/
def describe : Fault → Run String
  | .thrown value _ => do
    if !(← canNest .inspection value) then pure Fault.endlessText.message
    else if !(← canNest .text value) then Run.fail .endlessText
    else Run.shown value
  | fault => pure fault.message

def reportFault (fault : Fault) : Run Unit := do
  Run.report ("Error: " ++ (← describe fault) ++ "\n")

/-- Evaluates a line and prints its value. A fault in it is reported, and what the line did before
stays. -/
def evalLine (steps : Nat) (line : String) : Run Unit := do
  let failed : Fault → Run (Option String) := fun fault => do
    reportFault fault
    return none
  match ← (Session.rep steps line).handle failed with
  | some text => Run.print (text ++ "\n")
  | none => pure ()

/-- Asks for a line and evaluates it. False at the end of the input. -/
def promptOnce (steps : Nat) : Run Bool := do
  Run.print prompt
  match ← Run.nextLine with
  | none =>
    Run.print "\n"
    return false
  | some line =>
    evalLine steps line
    return true

/-- Asks for lines up to the end of the input, for at most so many rounds. -/
def promptLoop (steps : Nat) : (rounds : Nat) → Run Unit
  | 0 => Run.halt .steps
  | rounds + 1 => do
    if ← promptOnce steps then promptLoop steps rounds

/-! ## Arguments -/

/-- Whether a text is a minus sign and a number without exponent; a newline may end it. -/
def isNegativeNumber (cs : List Char) : Bool :=
  match cs with
  | '-' :: rest =>
    let body := if rest.getLast? == some '\n' then rest.dropLast else rest
    match body.dropWhile Text.isDigit with
    | [] => !body.isEmpty
    | '.' :: fraction => !fraction.isEmpty && fraction.all Text.isDigit
    | _ => false
  | _ => false

/-- Whether an argument can be the name of the file: it does not look like an option. -/
def isOperand (argument : String) : Bool :=
  match argument.toList with
  | '-' :: rest => rest.isEmpty || isNegativeNumber ('-' :: rest) || rest.contains ' '
  | _ => true

/-- Takes the first operand out: the file, and all other arguments in order. -/
def splitFile : List String → Option String × List String
  | [] => (none, [])
  | argument :: arguments =>
    if isOperand argument then (some argument, arguments)
    else
      let (file, others) := splitFile arguments
      (file, argument :: others)

/-! ## Running -/

/-- How a command ended: whether it failed, and the warnings of its start. -/
structure Ending where
  failed : Bool
  warnings : List String

/-- The form that runs a file. -/
def loadForm (file : String) : Run String := do
  return "(load-file " ++ (← Run.shown (.str file)) ++ ")"

/-- Runs a file. A fault is reported and counts as failure. -/
def runFile (steps : Nat) (file : String) : Run Bool := do
  let form ← loadForm file
  (do let _ ← Session.eval steps form; return false).handle fun fault => do
    reportFault fault
    return true

/-- The limit on the nesting of calls that no setting lowers. -/
def leastCallLimit : Nat := 1000

/-- Checks the settings, applies them and starts the session; returns the warnings. -/
def start (steps : Nat) (settings : Settings) : Run (List String) :=
  if Settings.largestLimit < settings.limit then Run.fail .limitTooLarge
  else do
    Run.modify fun s => { s with callLimit := max leastCallLimit settings.limit.toNat }
    Session.start steps settings .fromSettings

/-- The whole command: the file if one is given, the prompt otherwise. -/
def run (steps : Nat) (settings : Settings) (file : Option String) : Run Ending := do
  let warnings ← start steps settings
  match file with
  | some file => return ⟨← runFile steps file, warnings⟩
  | none =>
    promptLoop steps steps
    return ⟨false, warnings⟩

end SmallLisp.CommandLine
