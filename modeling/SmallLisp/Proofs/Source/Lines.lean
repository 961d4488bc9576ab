/-
Reading over lines. A newline ends every token, so two texts with a newline between them are read as the
tokens of one and then those of the other. What reading has settled by the end of the first text stays as it
is: its forms, a fault at one of its tokens, and the first form alone. Main statement: `readAll_lines`.
-/
import SmallLisp.Proofs.Source.Enclosed

namespace SmallLisp

/-- Whether a fault says that the source has ended inside of a construct. -/
def ReadFault.IsAtEnd : ReadFault → Prop
  | .unclosed _ | .endOfSource _ => True
  | _ => False

namespace Source

/-! ## Tokens that others follow -/

theorem endFault_isAtEnd (context : Context) : context.endFault.IsAtEnd := by
  cases context <;> trivial

/-- The forms so far stand before those that are read from there on, and change nothing else. -/
theorem readAllFrom_forms : ∀ (ts : List Token) (stack : List Context) (forms : List Value),
    readAllFrom stack forms ts =
      { readAllFrom stack [] ts with forms := forms.reverse ++ (readAllFrom stack [] ts).forms }
  | [], [], forms => by simp [readAllFrom]
  | [], context :: stack, forms => by simp [readAllFrom]
  | token :: ts, stack, forms => by
    rw [readAllFrom, readAllFrom]
    cases accept stack token with
    | complete form =>
      dsimp only
      rw [readAllFrom_forms ts [] (form :: forms), readAllFrom_forms ts [] [form]]
      simp
    | inside stack => exact readAllFrom_forms ts stack forms
    | failed fault | refused fault => simp

section Append

variable {ts : List Token} (us : List Token)

/-- After tokens that are read to the end, reading begins anew. -/
theorem allForms_append (h : (allForms ts).fault? = none) :
    allForms (ts ++ us) = { allForms us with forms := (allForms ts).forms ++ (allForms us).forms } := by
  rw [allForms, (passes_of_allForms h).readAllFrom us, readAllFrom_forms, List.reverse_reverse]
  rfl

/-- A fault at a token stands, whatever tokens follow; they are left over. -/
theorem allForms_append_of_fault {fault : ReadFault} (h : (allForms ts).fault? = some fault) (hend : ¬fault.IsAtEnd) :
    allForms (ts ++ us) = { allForms ts with rest := (allForms ts).rest ++ us } := by
  rcases passes_or_stops ts [] [] with ⟨stack, forms, hp⟩ | ⟨before, token, after, stack, forms, cause, rfl, hp, hs⟩
  · -- all tokens are taken, so the fault can only be that of the end
    have hreading := hp.readAllFrom []
    rw [List.append_nil] at hreading
    rw [allForms, hreading] at h
    cases stack with
    | nil => cases h
    | cons context stack =>
      obtain rfl : context.endFault = fault := Option.some.inj h
      exact absurd (endFault_isAtEnd context) hend
  · rw [List.append_assoc, List.cons_append, allForms, allForms, hp.readAllFrom, hp.readAllFrom,
      readAllFrom, readAllFrom]
    rcases hs with hs | hs <;> simp only [hs, List.cons_append]

/-- A form that is complete is the same, whatever tokens follow. -/
theorem readFrom_append : ∀ {ts : List Token} {stack : List Context} {form : Value} {rest : List Token},
    readFrom stack ts = (.ok (some form), rest) → readFrom stack (ts ++ us) = (.ok (some form), rest ++ us)
  | [], [], form, rest, h => by cases h
  | [], context :: stack, form, rest, h => by cases h
  | token :: ts, stack, form, rest, h => by
    rw [List.cons_append, readFrom]
    rw [readFrom] at h
    cases ha : accept stack token with
    | complete form' =>
      rw [ha] at h
      cases h
      rfl
    | inside stack' =>
      rw [ha] at h
      exact readFrom_append h
    | failed fault | refused fault =>
      rw [ha] at h
      cases h

end Append

/-! ## Texts that others follow -/

theorem tokens_lines_append (a b : String) :
    tokens (a ++ "\n" ++ b).toList = tokens a.toList ++ tokens b.toList := by
  have hchars : (a ++ "\n" ++ b).toList = a.toList ++ '\n' :: b.toList := by simp
  rw [hchars, tokens_append_newline]

/-- Reading is compositional over lines. Behind a text that is read to its end, a text on a new line is read as
it is alone. If reading fails before the end, what follows on a new line is not looked at. And the first form of a
text is the same, whatever follows on a new line. -/
theorem readAll_lines (a b : String) :
    ((readAll a).fault? = none → readAll (a ++ "\n" ++ b) =
      { readAll b with forms := (readAll a).forms ++ (readAll b).forms }) ∧
    (∀ fault, (readAll a).fault? = some fault → ¬fault.IsAtEnd → readAll (a ++ "\n" ++ b) =
      { readAll a with rest := (readAll a).rest ++ tokens b.toList }) ∧
    ∀ form, read a = .ok (some form) → read (a ++ "\n" ++ b) = .ok (some form) := by
  have htokens := tokens_lines_append a b
  refine ⟨fun h => ?_, fun fault h hend => ?_, fun form h => ?_⟩
  · rw [readAll, htokens]
    exact allForms_append _ h
  · rw [readAll, htokens]
    exact allForms_append_of_fault _ h hend
  · have hread : readFrom [] (tokens a.toList) = (.ok (some form), (readFrom [] (tokens a.toList)).2) := Prod.ext h rfl
    rw [read, htokens]
    exact congrArg Prod.fst (readFrom_append (tokens b.toList) hread)

/-- A text that ends in a comment, and one that fails at a bracket; what follows the first one fails in turn. -/
theorem readAll_lines_comment :
    (readAll "a ; (b").fault? = none ∧
    readAll ("a ; (b" ++ "\n" ++ "c (") = ⟨[.symbol "a", .symbol "c"], some (.unclosed .round), []⟩ ∧
    (readAll "a )").fault? = some (.unexpectedClosing .round) ∧
    ¬(ReadFault.unexpectedClosing .round).IsAtEnd ∧
    readAll ("a )" ++ "\n" ++ "c") =
      ⟨[.symbol "a"], some (.unexpectedClosing .round), [.closing .round, .word ['c']]⟩ ∧
    read "a ; (b" = .ok (some (.symbol "a")) ∧ read ("a ; (b" ++ "\n" ++ ")") = .ok (some (.symbol "a")) := by
  have hcomment : readAll "a ; (b" = ⟨[.symbol "a"], none, []⟩ := by rfl
  have hopen : readAll "c (" = ⟨[.symbol "c"], some (.unclosed .round), []⟩ := by rfl
  have hbracket : readAll "a )" = ⟨[.symbol "a"], some (.unexpectedClosing .round), [.closing .round]⟩ := by rfl
  have hfirst : read "a ; (b" = .ok (some (.symbol "a")) := by rfl
  have hother : ¬(ReadFault.unexpectedClosing .round).IsAtEnd := not_false
  have hfollowed := (readAll_lines "a ; (b" "c (").1 (by rw [hcomment])
  have hfailed := (readAll_lines "a )" "c").2.1 _ (by rw [hbracket]) hother
  rw [hcomment, hopen] at hfollowed
  rw [hbracket] at hfailed
  exact ⟨by rw [hcomment], hfollowed, by rw [hbracket], hother, hfailed, hfirst,
    (readAll_lines "a ; (b" ")").2.2 _ hfirst⟩

end Source

end SmallLisp
