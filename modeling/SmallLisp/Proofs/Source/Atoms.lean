/-
What single tokens denote: which words have a value, and that a string token denotes a text exactly
when it is whole.
-/
import SmallLisp.Proofs.Source.Grammar
import SmallLisp.Proofs.Source.Scan

namespace SmallLisp.Source

open Text (isDigit)

/-! ## Strings -/

theorem textBody?_plain {c : Char} {cs : List Char} (hq : c ≠ '"') (hb : c ≠ '\\') :
    textBody? (c :: cs) = (textBody? cs).map (c :: ·) := by
  simp [textBody?, hq, hb]

/-- What is taken for the body of a string is one, and the closing quote follows it. -/
theorem textBody?_eq_some {cs body : List Char} :
    textBody? cs = some body ↔ TextBody body ∧ cs = body ++ ['"'] := by
  constructor
  · intro h
    fun_induction textBody? cs generalizing body with
    | case1 => cases h
    | case2 => cases h; exact ⟨.nil, rfl⟩
    | case3 => cases h
    | case4 => cases h
    | case5 c cs hn ih =>
      obtain ⟨body, hb, rfl⟩ := Option.map_eq_some_iff.1 h
      obtain ⟨hbody, rfl⟩ := ih hb
      exact ⟨.escaped (by simpa using hn) hbody, rfl⟩
    | case6 c cs h1 h2 h3 ih =>
      obtain ⟨body, hb, rfl⟩ := Option.map_eq_some_iff.1 h
      obtain ⟨hbody, rfl⟩ := ih hb
      -- something follows the character, so it was neither the closing quote nor a last backslash
      obtain ⟨d, ds, hd⟩ := List.exists_cons_of_ne_nil (l := body ++ ['"']) (by simp)
      refine ⟨.plain ?_ ?_ hbody, rfl⟩
      · rintro rfl; exact h2 d ds rfl hd
      · rintro rfl; exact h3 d ds rfl hd
  · rintro ⟨hbody, rfl⟩
    induction hbody with
    | nil => rfl
    | @plain c cs hq hb hcs ih =>
      rw [List.cons_append, textBody?_plain hq hb, ih]; rfl
    | @escaped c cs hn hcs ih => simp [textBody?, hn, ih]

theorem integerNumeral?_text (cs : List Char) : integerNumeral? ('"' :: cs) = none := by
  have : isDigit '"' = false := by decide
  simp [integerNumeral?, splitMinus, this]

theorem floatNumeral?_text (cs : List Char) : floatNumeral? ('"' :: cs) = none := by
  have : isDigit '"' = false := by decide
  simp [floatNumeral?, splitMinus, unsignedDecimal?, this]

theorem atomValue_text (cs : List Char) : atomValue ('"' :: cs) =
    match textBody? cs with
    | some body => .ok (.str (String.ofList (Text.unescape body)))
    | none => .error .unterminatedText := by
  unfold atomValue
  rw [integerNumeral?_text, floatNumeral?_text]
  rfl

/-- A whole string denotes its text. -/
theorem atomValue_whole {body : List Char} (h : TextBody body) :
    atomValue ('"' :: (body ++ ['"'])) = .ok (.str (String.ofList (Text.unescape body))) := by
  rw [atomValue_text, textBody?_eq_some.2 ⟨h, rfl⟩]

/-! ## Words -/

/-- No word begins with a quote. -/
theorem IsWord.head_ne_quote {chars : List Char} (h : IsWord chars) (cs : List Char) : chars ≠ '"' :: cs := by
  rintro rfl
  obtain ⟨c, cs', he, hc, -⟩ := h
  cases he
  exact absurd hc (by decide)

/-- Whether a token is no integer with more digits than the limit allows. -/
def Token.Short : Token → Prop
  | .word chars => ∀ numeral ∈ integerNumeral? chars, numeral.2.length ≤ digitLimit
  | _ => True

instance : DecidablePred Token.Short := fun t => by
  cases t <;> unfold Token.Short <;> infer_instance

/-- Every word has a value, if it is no integer that is too long. -/
theorem atomValue_word {chars : List Char} (hw : IsWord chars) (hshort : (Token.word chars).Short) :
    atomValue chars = .ok (wordValue chars) := by
  suffices h : ∃ v, atomValue chars = .ok v by
    obtain ⟨v, hv⟩ := h
    rw [wordValue, hv]
  unfold atomValue
  split_ifs
  · exact ⟨_, rfl⟩
  · exact ⟨_, rfl⟩
  · exact ⟨_, rfl⟩
  · split
    · rename_i negative digits hi
      exact ⟨_, if_pos (hshort (negative, digits) hi)⟩
    · split
      · exact ⟨_, rfl⟩
      · split
        · exact absurd rfl (hw.head_ne_quote _)
        · exact ⟨_, rfl⟩
        · exact ⟨_, rfl⟩

/-! ## Tokens -/

/-- What a derivation needs of a token: a word has a value, and a string begins with its quote. -/
def Token.Sound : Token → Prop
  | .word chars => atomValue chars = .ok (wordValue chars)
  | .text chars => ∃ cs, chars = '"' :: cs
  | _ => True

/-- All tokens of a text whose integers are short enough are sound. -/
theorem sound_of_mem_tokens {cs : List Char} {t : Token} (h : t ∈ tokens cs) (hshort : t.Short) : t.Sound := by
  have hs := scanned_of_mem_tokens h
  cases t with
  | word chars => exact atomValue_word hs hshort
  | text chars => exact hs
  | _ => trivial

end SmallLisp.Source
