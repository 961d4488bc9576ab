/-
Settings, as texts from the outside: where the prelude is, how much is logged and how deep programs may nest.
A text that makes no sense gives the default. Section 10.1 of the specification.
-/
import SmallLisp.Run
import SmallLisp.Source.Atom

namespace SmallLisp

structure Settings where
  preludePath : Option String
  logLevel : Option String
  recursionLimit : Option String

namespace Settings

/-! ## Log level -/

/-- A letter in upper case. The dotless i and the long s have ASCII capitals too. -/
def upperLetter (c : Char) : Char :=
  if c == '\u0131' then 'I' else if c == '\u017f' then 'S' else c.toUpper

def levels : List (String × Nat) :=
  [("CRITICAL", 50), ("FATAL", 50), ("ERROR", 40), ("WARNING", 30), ("WARN", 30), ("INFO", 20),
    ("DEBUG", 10), ("NOTSET", 0)]

def defaultLevel : Nat := 30

/-- The number of the level that is named, in whatever case. -/
def level (s : Settings) : Nat :=
  let name := (Text.strip Text.isBlank (s.logLevel.getD "WARNING").toList).map upperLetter
  ((levels.find? fun entry => entry.1 == String.ofList name).map (·.2)).getD defaultLevel

/-! ## Recursion limit -/

/-- Digits with single underscores between them, without the underscores. -/
def joinedDigits? : List Char → Option (List Char)
  | [] => none
  | [c] => if Text.isDigit c then some [c] else none
  | c :: '_' :: cs => if Text.isDigit c then (joinedDigits? cs).map (c :: ·) else none
  | c :: cs => if Text.isDigit c then (joinedDigits? cs).map (c :: ·) else none

/-- The number of an optional sign and digits, with white space around. -/
def integer? (text : String) : Option Int :=
  let (negative, digits) := match Text.strip Text.isWhiteSpace text.toList with
    | '+' :: cs => (false, cs)
    | cs => Source.splitMinus cs
  match joinedDigits? digits with
  | none => none
  | some digits =>
    if digitLimit < digits.length then none
    else
      let n := Text.numberOfDigits digits
      some (if negative then -(n : Int) else n)

def defaultLimit : Int := 10000

def limit (s : Settings) : Int := (s.recursionLimit.bind integer?).getD defaultLimit

/-- The largest limit that can be set. -/
def largestLimit : Int := Int.pow 2 31 - 1

/-! ## Prelude -/

def preludeFile : String := "core.mal"

/-- Whether a path leads to a directory. -/
def isDirectory (path : Path) : Run Bool := do
  match ← Run.tryReadFile path with
  | .error (.directory _) => pure true
  | .error (.nameTooLong text) => Run.fail (.file (.nameTooLong text))
  | _ => pure false

/-- The directory of the prelude: the one that is set, or the one around the path that is set. None
if none is set, which stands for the directory of the standard prelude. -/
def preludeDirectory? (s : Settings) : Run (Option Path) :=
  match Text.strip Text.isBlank (s.preludePath.getD "").toList with
  | [] => pure none
  | cs => do
    let path := Path.ofString (String.ofList cs)
    return some (if ← isDirectory path then path else path.parent)

end Settings

end SmallLisp
