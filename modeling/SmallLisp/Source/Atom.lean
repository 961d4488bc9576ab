/-
What a single word or text token denotes: a constant, an integer, a double, a string, a keyword, or a symbol,
tried in this order. Digits of every script count as digits. Section 4.1 of the specification.
-/
import SmallLisp.Binary64.Decimal
import SmallLisp.Fault
import SmallLisp.Text.Character
import SmallLisp.Text.Quoting

namespace SmallLisp.Source

open Text (isDigit numberOfDigits)

/-! ## Numerals -/

/-- Takes a minus sign off. -/
def splitMinus : List Char → Bool × List Char
  | '-' :: cs => (true, cs)
  | cs => (false, cs)

/-- The sign and the digits of an integer numeral: an optional minus sign and at least one digit. -/
def integerNumeral? (cs : List Char) : Option (Bool × List Char) :=
  let (negative, digits) := splitMinus cs
  if !digits.isEmpty && digits.all isDigit then some (negative, digits) else none

/-- The number of an optional sign and at least one digit. -/
def signedDigits? (cs : List Char) : Option Int :=
  let (negative, digits) := match cs with
    | '+' :: digits => (false, digits)
    | cs => splitMinus cs
  if !digits.isEmpty && digits.all isDigit then
    some (if negative then -(numberOfDigits digits : Int) else numberOfDigits digits)
  else none

/-- The exponent that ends a numeral: nothing, or `e` and a signed number. -/
def exponentPart? : List Char → Option Int
  | [] => some 0
  | c :: cs => if c == 'e' || c == 'E' then signedDigits? cs else none

/-- The decimal of an unsigned numeral. It has a digit before or after its point; without a point
it has an exponent. -/
def unsignedDecimal? (cs : List Char) : Option Decimal :=
  let whole := cs.takeWhile isDigit
  match cs.dropWhile isDigit with
  | '.' :: rest =>
    let fraction := rest.takeWhile isDigit
    if whole.isEmpty && fraction.isEmpty then none
    else (exponentPart? (rest.dropWhile isDigit)).map fun exponent =>
      ⟨numberOfDigits (whole ++ fraction), exponent - fraction.length⟩
  | rest =>
    if whole.isEmpty || rest.isEmpty then none
    else (exponentPart? rest).map fun exponent => ⟨numberOfDigits whole, exponent⟩

/-- The double of a numeral, nearest to the decimal that it writes. -/
def floatNumeral? (cs : List Char) : Option Binary64 :=
  let (negative, unsigned) := splitMinus cs
  (unsignedDecimal? unsigned).map (Binary64.ofDecimal negative)

/-! ## Strings -/

/-- What stands between the quotes, given what follows the opening one. The closing quote is the
last character, no other is bare, and a backslash takes any character but a newline with it. -/
def textBody? : List Char → Option (List Char)
  | [] => none
  | ['"'] => some []
  | '"' :: _ :: _ => none
  | '\\' :: c :: cs => if c == '\n' then none else (textBody? cs).map ('\\' :: c :: ·)
  | c :: cs => (textBody? cs).map (c :: ·)

/-! ## Atoms -/

def integerValue (negative : Bool) (digits : List Char) : Except ReadFault Value :=
  if digits.length ≤ digitLimit then
    let n := numberOfDigits digits
    .ok (.int (if negative then -(n : Int) else n))
  else .error (.tooManyDigits digits.length)

/-- The value that a word or a text token denotes. -/
def atomValue (cs : List Char) : Except ReadFault Value :=
  if cs == "nil".toList then .ok .nil
  else if cs == "true".toList then .ok (.bool true)
  else if cs == "false".toList then .ok (.bool false)
  else match integerNumeral? cs with
    | some (negative, digits) => integerValue negative digits
    | none =>
      match floatNumeral? cs with
      | some x => .ok (.float x)
      | none =>
        match cs with
        | '"' :: rest =>
          match textBody? rest with
          | some body => .ok (.str (String.ofList (Text.unescape body)))
          | none => .error .unterminatedText
        | ':' :: name => .ok (.keyword (String.ofList name))
        | name => .ok (.symbol (String.ofList name))

end SmallLisp.Source
