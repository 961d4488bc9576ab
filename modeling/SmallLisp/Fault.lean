/-
Faults: why reading or evaluation stopped. Each is a cause; the wording stands in `message` alone. Where a
message shows a value, the fault holds the text of that value at the time it arose, since cells may change
afterwards. Sections 4.5 and 7 of the specification.
-/
import SmallLisp.Source.Token
import SmallLisp.Text.Quoting
import SmallLisp.Value

namespace SmallLisp

/-- Why source text is no form. -/
inductive ReadFault where
  | unterminatedText
  | unexpectedClosing (b : Source.Bracket)
  | unclosed (b : Source.Bracket)
  | endOfSource (expected : String)
  | oddMap
  | tooManyDigits (count : Nat)
  deriving DecidableEq

/-- Why an argument count is wrong. -/
inductive ArityFault where
  | tooFew (name : String)
  | tooMany (name : String)
  | missing (parameters : List String)
  | extra (shown : List String)
  deriving DecidableEq

/-- The kinds of form that a special form may ask for. -/
inductive FormKind where
  | symbol | list | vector | map
  deriving DecidableEq

/-- Why a form or an argument is of the wrong kind. -/
inductive KindFault where
  | argument (position : Nat) (name : String) (kinds : List FormKind)
  | undefinable (shown : String)
  | parameterNotSymbol (shown : String)
  | malformedRest
  | oddBindings
  | bindingNotSymbol (shown : String)
  | macroNotFunction
  | handlerExpected
  | notApplicable (shown : String)
  | notNumber (name shown : String)
  | notSequence (name shown : String)
  | notMap (name shown : String)
  | notCell (name shown : String)
  | notText (name : String)
  | notFileName (name : String)
  | oddEntries
  | indexNotInteger
  | noMetadata (kind : String)
  | functionKey (name : String)
  | mutableKey (name shown : String)
  deriving DecidableEq

/-- Why a file cannot be read. -/
inductive FileFault where
  | missing (path : String)
  | directory (path : String)
  | notDirectory (path : String)
  | nameTooLong (path : String)
  | invalidName
  | noPrelude (path : String)
  | unreadable (reason : String)
  deriving DecidableEq

inductive Fault where
  | reading (cause : ReadFault)
  | unbound (name : String)
  | arity (cause : ArityFault)
  | kind (cause : KindFault)
  | divisionByZero
  | indexOutOfRange
  /-- A value that a program raised, and its text at that time. -/
  | thrown (value : Value) (shown : String)
  /-- An integer beyond the range of doubles. -/
  | doubleOverflow
  /-- An integer with too many digits to be written. -/
  | integerTooLong
  /-- A text without end, of a cell that holds itself. -/
  | endlessText
  /-- A rest mark with no name after it. -/
  | restNameMissing
  | file (cause : FileFault)
  /-- A recursion limit that cannot be set. -/
  | limitTooLarge

/-- Most decimal digits of an integer that is read or written. -/
def digitLimit : Nat := 4300

namespace FormKind

/-- Whether a value is of a kind. -/
def admits : FormKind → Value → Bool
  | .symbol, .symbol _ => true
  | .list, .list .. => true
  | .vector, .vector .. => true
  | .map, .map .. => true
  | _, _ => false

def name : FormKind → String
  | .symbol => "Symbol" | .list => "List" | .vector => "Vector" | .map => "HashMap"

end FormKind

/-- A position in words: 1st, 2nd, 3rd, and `th` for all others. -/
def ordinal (n : Int) : String :=
  if n = 1 then "1st" else if n = 2 then "2nd" else if n = 3 then "3rd" else toString n ++ "th"

/-- Texts between square brackets. -/
def bracketed (texts : List String) : String := "[" ++ ", ".intercalate texts ++ "]"

def ReadFault.message : ReadFault → String
  | .unterminatedText => "unterminated string"
  | .unexpectedClosing b => "Unexpected '" ++ String.singleton b.closing ++ "'"
  | .unclosed b => "EOF while reading, expected '" ++ String.singleton b.closing ++ "'"
  | .endOfSource expected => "EOF while reading " ++ expected
  | .oddMap => "Map literal must contain an even number of forms"
  | .tooManyDigits count =>
    "Exceeds the limit (" ++ toString digitLimit ++
      " digits) for integer string conversion: value has " ++ toString count ++
      " digits; use sys.set_int_max_str_digits() to increase the limit"

def ArityFault.message : ArityFault → String
  | .tooFew name => "Too few arguments to " ++ name
  | .tooMany name => "Too many arguments to " ++ name
  | .missing parameters =>
    "Too few arguments; missing " ++ toString parameters.length ++ " parameter(s): " ++
      bracketed (parameters.map Text.quoted)
  | .extra shown => "Too many arguments: " ++ bracketed shown

def KindFault.message : KindFault → String
  | .argument position name kinds =>
    ordinal position ++ " argument to " ++ name ++ " must be a " ++
      " or a ".intercalate (kinds.map FormKind.name)
  | .undefinable shown => "Cannot define " ++ shown ++ " as a symbol"
  | .parameterNotSymbol shown => "fn* params must be Symbols, got " ++ shown
  | .malformedRest => "Malformed parameter list: & must be followed by exactly one name"
  | .oddBindings => "let* requires an even number of forms in its binding list"
  | .bindingNotSymbol shown => "let* binding name must be a Symbol, got " ++ shown
  | .macroNotFunction => "defmacro! expects a function declaration as second parameter"
  | .handlerExpected => "a catch* form was expected as 2nd argument to try*"
  | .notApplicable shown => "Cannot apply non-function " ++ shown
  | .notNumber name shown => "All arguments to " ++ name ++ " must be numbers, got " ++ shown
  | .notSequence name shown => name ++ " expects a list or vector, got " ++ shown
  | .notMap name shown => name ++ " expects a hash-map, got " ++ shown
  | .notCell name shown => name ++ " expects an atom, got " ++ shown
  | .notText name => name ++ " expects a string"
  | .notFileName name => name ++ " expects a file name"
  | .oddEntries => "hash-map requires an even number of arguments"
  | .indexNotInteger => "nth index must be an integer"
  | .noMetadata kind => "with-meta not supported on " ++ kind
  | .functionKey name => name ++ ": a function cannot be used as a hash-map key"
  | .mutableKey name shown => name ++ ": " ++ shown ++ " cannot be used as a hash-map key"

def FileFault.message : FileFault → String
  | .missing path => "[Errno 2] No such file or directory: " ++ Text.quoted path
  | .directory path => "[Errno 21] Is a directory: " ++ Text.quoted path
  | .notDirectory path => "[Errno 20] Not a directory: " ++ Text.quoted path
  | .nameTooLong path => "[Errno 36] File name too long: " ++ Text.quoted path
  | .invalidName => "embedded null byte"
  | .noPrelude path => "Cannot find prelude '" ++ path ++ "' (check MAL_PRELUDE_PATH)"
  | .unreadable reason => reason

def Fault.message : Fault → String
  | .reading cause => cause.message
  | .unbound name => "'" ++ name ++ "' not found"
  | .arity cause => cause.message
  | .kind cause => cause.message
  | .divisionByZero => "division by zero"
  | .indexOutOfRange => "nth: index out of range"
  | .thrown _ shown => "MalException(value=" ++ shown ++ ")"
  | .doubleOverflow => "int too large to convert to float"
  | .integerTooLong =>
    "Exceeds the limit (" ++ toString digitLimit ++ " digits) for integer string conversion; " ++
      "use sys.set_int_max_str_digits() to increase the limit"
  | .endlessText => "maximum recursion depth exceeded"
  | .restNameMissing => "list index out of range"
  | .file cause => cause.message
  | .limitTooLarge => "Python int too large to convert to C int"

/-- What a handler sees: the thrown value itself, or the message of any other fault. -/
def Fault.caught : Fault → Value
  | .thrown value _ => value
  | fault => .str fault.message

end SmallLisp
