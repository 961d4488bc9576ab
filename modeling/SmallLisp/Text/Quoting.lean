/-
The two notations of strings: as the literals that programs write and read, and as fault messages show them.
Section 6.3 of the specification.
-/
import SmallLisp.Text.Character

namespace SmallLisp.Text

/-! ## Literals

Quotes, backslashes and newlines are written with a backslash. Reading undoes these three escapes and leaves every
other backslash in place. -/

def escapeChar (c : Char) : List Char :=
  if c == '\\' then ['\\', '\\']
  else if c == '"' then ['\\', '"']
  else if c == '\n' then ['\\', 'n']
  else [c]

def escape (cs : List Char) : List Char := cs.flatMap escapeChar

def unescape : List Char → List Char
  | '\\' :: 'n' :: cs => '\n' :: unescape cs
  | '\\' :: '"' :: cs => '"' :: unescape cs
  | '\\' :: '\\' :: cs => '\\' :: unescape cs
  | c :: cs => c :: unescape cs
  | [] => []

theorem unescape_escapeChar (c : Char) (cs : List Char) :
    unescape (escapeChar c ++ cs) = c :: unescape cs := by
  unfold escapeChar
  by_cases hs : c = '\\'
  · subst hs; simp [unescape]
  · by_cases hq : c = '"'
    · subst hq; simp [unescape]
    · by_cases hn : c = '\n'
      · subst hn; simp [unescape]
      · simp [unescape, hs, hq, hn]

/-- Reading an escaped text gives the text back. -/
theorem unescape_escape (cs : List Char) : unescape (escape cs) = cs := by
  induction cs with
  | nil => rfl
  | cons c cs ih =>
    rw [show escape (c :: cs) = escapeChar c ++ escape cs from rfl, unescape_escapeChar, ih]

/-! ## Quoted text

Fault messages show a string between single quotes, or between double quotes if it holds a single quote and no double
one; what cannot be printed is shown by its code point. -/

/-- The `width` last hexadecimal digits of a number, in lower case. -/
def hexDigits : (width : Nat) → (n : Nat) → List Char
  | 0, _ => []
  | width + 1, n => hexDigits width (n / 16) ++ [Nat.digitChar (n % 16)]

/-- A character by its code point, with as many digits as its size needs. -/
def codePointEscape (c : Char) : List Char :=
  let n := c.toNat
  if n < 0x100 then '\\' :: 'x' :: hexDigits 2 n
  else if n < 0x10000 then '\\' :: 'u' :: hexDigits 4 n
  else '\\' :: 'U' :: hexDigits 8 n

/-- How a character is written between two `quote` marks. -/
def quotedChar (quote : Char) (c : Char) : List Char :=
  if c == quote || c == '\\' then ['\\', c]
  else if c == '\t' then ['\\', 't']
  else if c == '\n' then ['\\', 'n']
  else if c == '\r' then ['\\', 'r']
  else if isPrintable c then [c]
  else codePointEscape c

def quoteFor (cs : List Char) : Char :=
  if cs.contains '\'' && !cs.contains '"' then '"' else '\''

/-- A string in quoted notation. -/
def quoted (text : String) : String :=
  let quote := quoteFor text.toList
  String.ofList (quote :: text.toList.flatMap (quotedChar quote) ++ [quote])

end SmallLisp.Text
