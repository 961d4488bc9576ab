/-
The program. It only carries out what runs want: it shows what they print, types lines, opens files
and gives more steps, and runs again from the same state with the answer.
-/
import SmallLisp.CommandLine

namespace SmallLisp.Program

/-- How many steps a run is given at first. -/
def firstSteps : Nat := Nat.pow 10 15

/-- Shows what a state printed beyond the characters that are shown already. -/
def showNew (s : State) (shown : Nat × Nat) : IO (Nat × Nat) := do
  let stdout ← IO.getStdout
  let stderr ← IO.getStderr
  stdout.putStr (String.ofList (s.output.toList.drop shown.1))
  stdout.flush
  stderr.putStr (String.ofList (s.errors.toList.drop shown.2))
  stderr.flush
  return (s.output.length, s.errors.length)

/-- The state with one more line typed, or with the input ended. -/
def withLine (s : State) : IO State := do
  let line ← (← IO.getStdin).getLine
  if line.isEmpty then return { s with inputEnded := true }
  return { s with input := s.input ++ line.toList }

/-- What the disk says about a file. -/
def askDisk (path : String) : IO (Except FileFault String) := do
  try
    return .ok (← IO.FS.readFile path)
  catch
    | .noFileOrDirectory .. => return .error (.missing path)
    | .inappropriateType _ 21 _ => return .error (.directory path)
    | .inappropriateType .. => return .error (.notDirectory path)
    | e => return .error (.unreadable (toString e))

def withFile (s : State) (path : String) : IO State := do
  let answer ← askDisk path
  let answers := match s.files with
    | .answered answers => answers
    | .tree _ => []
  return { s with files := .answered ((path, answer) :: answers) }

/-- Runs to the end. What was shown by a run that halted is not shown again. -/
partial def perform {α : Type} (run : Nat → Run α) (steps : Nat) (s : State) (shown : Nat × Nat) :
    IO (Except Fault α × State) := do
  match run steps s with
  | .value a after =>
    let _ ← showNew after shown
    return (.ok a, after)
  | .fault fault after =>
    let _ ← showNew after shown
    return (.error fault, after)
  | .halted need after =>
    let shown ← showNew after shown
    match need with
    | .steps => perform run (2 * steps) s shown
    | .line => perform run steps (← withLine s) shown
    | .file path => perform run steps (← withFile s path) shown

/-- Runs from a state whose consoles are shown. The disk is asked anew. -/
def fresh {α : Type} (run : Nat → Run α) (s : State) : IO (Except Fault α × State) :=
  perform run firstSteps { s with output := "", errors := "", files := .answered [] } (0, 0)

/-- Asks for lines until the input ends. -/
partial def promptLoop (s : State) : IO Unit := do
  let (result, s) ← fresh CommandLine.promptOnce s
  match result with
  | .ok true => promptLoop s
  | _ => pure ()

end SmallLisp.Program

open SmallLisp in
def main (arguments : List String) : IO UInt32 := do
  let settings : Settings :=
    ⟨← IO.getEnv "MAL_PRELUDE_PATH", ← IO.getEnv "MAL_LOG_LEVEL", ← IO.getEnv "MAL_RECURSION_LIMIT"⟩
  let (file, others) := CommandLine.splitFile arguments
  let start := State.initial others (.answered []) "" false (← IO.monoMsNow)
  let (result, s) ← Program.fresh (fun steps => CommandLine.start steps settings) start
  match result with
  | .error fault =>
    IO.eprintln fault.message
    return 1
  | .ok warnings =>
    if settings.level ≤ Settings.defaultLevel then
      for warning in warnings do
        IO.eprintln ("WARNING: " ++ warning)
    match file with
    | none =>
      Program.promptLoop s
      return 0
    | some file =>
      let (result, _) ← Program.fresh (fun steps => CommandLine.runFile steps file) s
      match result with
      | .ok false => return 0
      | _ => return 1
