/-
A stream of tokens, and moves along it. The stream pulls its tokens one by one from a row; a token that was
looked at and not taken waits in a buffer. A move leaves the stream where it has stopped, also when it fails,
so that other moves can follow. Section 4.1 of the specification.
-/
import SmallLisp.Source.Form

namespace SmallLisp.Source

/-- The tokens that were pulled and not taken, and those that are still to be pulled. -/
structure Stream where
  buffer : List Token
  unpulled : List Token

namespace Stream

def ofTokens (tokens : List Token) : Stream := ⟨[], tokens⟩

/-- The tokens that have not been taken. -/
def ahead (s : Stream) : List Token := s.buffer ++ s.unpulled

/-- Looks at the next token. It is pulled, unless one waits in the buffer. -/
def peek : Stream → Option Token × Stream
  | ⟨token :: buffer, unpulled⟩ => (some token, ⟨token :: buffer, unpulled⟩)
  | ⟨[], token :: unpulled⟩ => (some token, ⟨[token], unpulled⟩)
  | ⟨[], []⟩ => (none, ⟨[], []⟩)

/-- Takes the next token, out of the buffer if one waits there. -/
def advance : Stream → Option Token × Stream
  | ⟨token :: buffer, unpulled⟩ => (some token, ⟨buffer, unpulled⟩)
  | ⟨[], token :: unpulled⟩ => (some token, ⟨[], unpulled⟩)
  | ⟨[], []⟩ => (none, ⟨[], []⟩)

theorem peek_eq (s : Stream) : s.peek.1 = s.ahead.head? ∧ s.peek.2.ahead = s.ahead := by
  rcases s with ⟨_ | ⟨token, buffer⟩, _ | ⟨token', unpulled⟩⟩ <;> exact ⟨rfl, rfl⟩

theorem advance_eq (s : Stream) : s.advance.1 = s.ahead.head? ∧ s.advance.2.ahead = s.ahead.tail := by
  rcases s with ⟨_ | ⟨token, buffer⟩, _ | ⟨token', unpulled⟩⟩ <;> exact ⟨rfl, rfl⟩

/-- Taking a token that was looked at leaves fewer ahead. -/
theorem length_advance_lt {s s' : Stream} {token : Token} (h : s.peek = (some token, s')) :
    s'.advance.2.ahead.length < s.ahead.length := by
  obtain ⟨hhead, hahead⟩ := s.peek_eq
  rw [h] at hhead hahead
  rw [s'.advance_eq.2, hahead]
  cases hs : s.ahead with
  | nil => simp [hs] at hhead
  | cons token' tokens => simp

/-! ## Forms -/

/-- Reads on inside of constructs up to the first complete form. A token is looked at first, and taken unless it is
refused. -/
def readFrom (stack : List Context) (s : Stream) : Except ReadFault (Option Value) × Stream :=
  match _ : s.peek with
  | (none, s') =>
    match stack with
    | [] => (.ok none, s')
    | context :: _ => (.error context.endFault, s')
  | (some token, s') =>
    match accept stack token with
    | .complete form => (.ok (some form), s'.advance.2)
    | .inside stack => readFrom stack s'.advance.2
    | .failed fault => (.error fault, s'.advance.2)
    | .refused fault => (.error fault, s')
termination_by s.ahead.length
decreasing_by exact length_advance_lt ‹_›

/-- The next form, if there is one. -/
def nextForm (s : Stream) : Except ReadFault (Option Value) × Stream := s.readFrom []

/-- The next form, where the end is a fault that names what was expected. -/
def requireForm (expected : String) (s : Stream) : Except ReadFault (Option Value) × Stream :=
  match s.peek with
  | (none, s') => (.error (.endOfSource expected), s')
  | (some _, s') => s'.nextForm

/-- A form takes at least one token. -/
theorem length_readFrom_lt {stack : List Context} {s s' : Stream} {form : Value}
    (h : s.readFrom stack = (.ok (some form), s')) : s'.ahead.length < s.ahead.length := by
  fun_induction readFrom stack s with
  | case1 | case2 | case5 | case6 => cases h
  | case3 stack s token s₁ hpeek form' haccept =>
    cases h
    exact length_advance_lt hpeek
  | case4 stack s token s₁ hpeek inner haccept ih => exact Nat.lt_trans (ih h) (length_advance_lt hpeek)

theorem length_nextForm_lt {s s₁ s₂ : Stream} {token? : Option Token} {form : Value} (hpeek : s.peek = (token?, s₁))
    (hform : s₁.nextForm = (.ok (some form), s₂)) : s₂.ahead.length < s.ahead.length := by
  have hahead : s₁.ahead = s.ahead := by
    rw [← s.peek_eq.2, hpeek]
  rw [← hahead]
  exact length_readFrom_lt hform

/-- Every form up to the end or to the first fault, and that fault. -/
def allForms (s : Stream) : List Value × Option ReadFault × Stream :=
  match _ : s.peek with
  | (none, s') => ([], none, s')
  | (some _, s') =>
    match _ : s'.nextForm with
    | (.ok (some form), s'') =>
      let (forms, fault?, rest) := allForms s''
      (form :: forms, fault?, rest)
    | (.ok none, s'') => ([], none, s'')
    | (.error fault, s'') => ([], some fault, s'')
termination_by s.ahead.length
decreasing_by exact length_nextForm_lt ‹_› ‹_›

end Stream

/-! ## Moves -/

inductive Move where
  /-- Looks at the next token. -/
  | peek
  /-- Takes the next token. -/
  | advance
  /-- Reads a form. -/
  | form
  /-- Reads a form that must be there; the text names it in the fault. -/
  | required (expected : String)
  /-- Reads every form. -/
  | forms

/-- What a successful move finds. Where no token is ahead, there is no token and no form. -/
inductive Finding where
  | token (token? : Option Token)
  | form (form? : Option Value)
  | forms (forms : List Value)

namespace Move

/-- Makes a move: what it finds, and the stream after it. -/
def make : Move → Stream → Except ReadFault Finding × Stream
  | .peek, s =>
    let (token?, rest) := s.peek
    (.ok (.token token?), rest)
  | .advance, s =>
    let (token?, rest) := s.advance
    (.ok (.token token?), rest)
  | .form, s =>
    let (form?, rest) := s.nextForm
    (form?.map .form, rest)
  | .required expected, s =>
    let (form?, rest) := s.requireForm expected
    (form?.map .form, rest)
  | .forms, s =>
    match s.allForms with
    | (_, some fault, rest) => (.error fault, rest)
    | (read, none, rest) => (.ok (.forms read), rest)

/-- Makes moves one after the other, each from where the one before it stopped. -/
def makeEach : List Move → Stream → List (Except ReadFault Finding) × Stream
  | [], s => ([], s)
  | move :: moves, s =>
    let (finding, rest) := move.make s
    let (findings, rest) := makeEach moves rest
    (finding :: findings, rest)

/-- Makes moves along a row of tokens. -/
def makeAll (moves : List Move) (tokens : List Token) : List (Except ReadFault Finding) × Stream :=
  makeEach moves (.ofTokens tokens)

end Move

end SmallLisp.Source
