/-
Tokens of source text. The scanner is a machine that takes one character at a time; a newline brings it back
to the gap between tokens from every mode, so no token runs over the end of a line. Section 4.1 of the
specification.
-/
import SmallLisp.Text.Character

namespace SmallLisp.Source

/-- The brackets around lists, vectors and maps. -/
inductive Bracket where
  | round | square | curly
  deriving DecidableEq

namespace Bracket

def opening : Bracket → Char
  | .round => '(' | .square => '[' | .curly => '\x7b'

def closing : Bracket → Char
  | .round => ')' | .square => ']' | .curly => '\x7d'

end Bracket

/-- The marks that stand before a form and wrap it in a list. -/
inductive Mark where
  | quote | quasiquote | unquote | spliceUnquote | deref
  deriving DecidableEq

namespace Mark

def lexeme : Mark → String
  | .quote => "'" | .quasiquote => "\x60" | .unquote => "~" | .spliceUnquote => "~@" | .deref => "@"

/-- The symbol that heads the wrapped form. -/
def head : Mark → String
  | .quote => "quote" | .quasiquote => "quasiquote" | .unquote => "unquote"
  | .spliceUnquote => "splice-unquote" | .deref => "deref"

end Mark

/-- A token. `word` and `text` keep their characters as they stand; a `text` begins with its quote
and may lack the closing one. `caret` announces metadata. -/
inductive Token where
  | mark (m : Mark)
  | caret
  | opening (b : Bracket)
  | closing (b : Bracket)
  | text (chars : List Char)
  | word (chars : List Char)
  deriving DecidableEq

namespace Token

/-- The characters of a token. -/
def lexeme : Token → String
  | .mark m => m.lexeme
  | .caret => "^"
  | .opening b => String.singleton b.opening
  | .closing b => String.singleton b.closing
  | .text chars => String.ofList chars
  | .word chars => String.ofList chars

/-- The class of a token in listings. -/
def className : Token → String
  | .mark .spliceUnquote => "splice"
  | .text _ => "string"
  | .word _ => "atom"
  | _ => "special"

end Token

/-! ## Character classes -/

def isSeparator (c : Char) : Bool := Text.isBlank c || c == ','

/-- The token of a character that always stands alone. -/
def punctuation? (c : Char) : Option Token :=
  if c == '(' then some (.opening .round)
  else if c == ')' then some (.closing .round)
  else if c == '[' then some (.opening .square)
  else if c == ']' then some (.closing .square)
  else if c == '\x7b' then some (.opening .curly)
  else if c == '\x7d' then some (.closing .curly)
  else if c == '\'' then some (.mark .quote)
  else if c == '\x60' then some (.mark .quasiquote)
  else none

/-- The characters that continue a word; `~`, `@` and `^` do, although they cannot start one. -/
def isWordChar (c : Char) : Bool :=
  !isSeparator c && (punctuation? c).isNone && c != '"' && c != ';'

/-! ## The scanner -/

/-- What the scanner is inside of. Characters seen are kept latest first. -/
inductive Mode where
  | gap
  | comment
  | tilde
  | word (seen : List Char)
  | text (seen : List Char)
  | escape (seen : List Char)
  deriving DecidableEq

namespace Mode

/-- The tokens, latest first, that end where a line or the source ends. A backslash there belongs
to no text: the text ends before it, and it is a word of its own. -/
def flush : Mode → List Token
  | .gap => []
  | .comment => []
  | .tilde => [.mark .unquote]
  | .word seen => [.word seen.reverse]
  | .text seen => [.text seen.reverse]
  | .escape seen => [.word ['\\'], .text seen.reverse]

/-- What a character does between tokens. -/
def start (c : Char) : List Token × Mode :=
  if isSeparator c then ([], .gap)
  else if c == ';' then ([], .comment)
  else if c == '"' then ([], .text [c])
  else if c == '~' then ([], .tilde)
  else if c == '@' then ([.mark .deref], .gap)
  else if c == '^' then ([.caret], .gap)
  else match punctuation? c with
    | some token => ([token], .gap)
    | none => ([], .word [c])

/-- Ends what stands before a character and starts anew with it. -/
def restart (mode : Mode) (c : Char) : List Token × Mode :=
  ((start c).1 ++ mode.flush, (start c).2)

/-- What a character does: the tokens that it completes, latest first, and the mode after it. -/
def next (mode : Mode) (c : Char) : List Token × Mode :=
  if c == '\n' then (mode.flush, .gap)
  else match mode with
    | .gap => start c
    | .comment => ([], .comment)
    | .tilde => if c == '@' then ([.mark .spliceUnquote], .gap) else restart .tilde c
    | .word seen => if isWordChar c then ([], .word (c :: seen)) else restart (.word seen) c
    | .text seen =>
      if c == '"' then ([.text (c :: seen).reverse], .gap)
      else if c == '\\' then ([], .escape seen)
      else ([], .text (c :: seen))
    | .escape seen => ([], .text (c :: '\\' :: seen))

end Mode

/-- The scanner between two characters: its mode, and the tokens so far, latest first. -/
structure Scan where
  mode : Mode
  tokens : List Token

def Scan.feed (scan : Scan) (c : Char) : Scan :=
  let (completed, mode) := scan.mode.next c
  ⟨mode, completed ++ scan.tokens⟩

/-- The tokens of a text. -/
def tokens (cs : List Char) : List Token :=
  let scan := cs.foldl Scan.feed ⟨.gap, []⟩
  (scan.mode.flush ++ scan.tokens).reverse

end SmallLisp.Source
