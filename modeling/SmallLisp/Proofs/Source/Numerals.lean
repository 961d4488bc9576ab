/-
Numerals. What is read as a number is scanned as one word (`isWord_of_integerNumeral?`,
`isWord_of_floatNumeral?`), and no numeral is taken for a constant or for a number of the other kind.
-/
import SmallLisp.Proofs.Source.Scan
import SmallLisp.Source.Atom

namespace SmallLisp.Source

open Text (isDigit numberOfDigits)

/-! ## Numerals are words -/

/-- A digit, or one of the signs that numerals have besides digits. -/
def IsNumeralChar (c : Char) : Prop := isDigit c = true ∨ c ∈ ['.', 'e', 'E', '+', '-']

theorem digits_are_word_chars : ∀ z ∈ Text.zeros, ∀ i < 10, Mode.start (Char.ofNat (z + i)) =
    ([], .word [Char.ofNat (z + i)]) ∧ isWordChar (Char.ofNat (z + i)) = true := by
  decide +kernel

/-- Digits of every script start words and continue them. -/
theorem IsNumeralChar.start_and_continue {c : Char} (h : IsNumeralChar c) :
    Mode.start c = ([], .word [c]) ∧ isWordChar c = true := by
  rcases h with h | h
  · obtain ⟨value, hvalue⟩ := Option.isSome_iff_exists.1 h
    obtain ⟨z, hfind, -⟩ := Option.map_eq_some_iff.1 hvalue
    have hrange := List.find?_some hfind
    simp only [Bool.and_eq_true, decide_eq_true_eq] at hrange
    have hc : c = Char.ofNat (z + (c.toNat - z)) := by
      rw [Nat.add_sub_cancel' hrange.1, Char.ofNat_toNat]
    rw [hc]
    exact digits_are_word_chars z (List.mem_of_find?_eq_some hfind) _ (by omega)
  · simp only [List.mem_cons, List.not_mem_nil, or_false] at h
    rcases h with rfl | rfl | rfl | rfl | rfl <;> decide

theorem isWord_of_numeralChars {cs : List Char} (hne : cs ≠ []) (h : ∀ c ∈ cs, IsNumeralChar c) : IsWord cs := by
  cases cs with
  | nil => exact absurd rfl hne
  | cons c cs =>
    exact ⟨c, cs, rfl, (h c (List.mem_cons_self ..)).start_and_continue.1,
      fun d hd => (h d (List.mem_cons_of_mem _ hd)).start_and_continue.2⟩

theorem isNumeralChar_of_all {cs : List Char} (h : cs.all isDigit = true) : ∀ c ∈ cs, IsNumeralChar c :=
  fun c hc => Or.inl (List.all_eq_true.1 h c hc)

theorem isNumeralChar_cons {c : Char} {cs : List Char} (hc : c ∈ ['.', 'e', 'E', '+', '-'])
    (h : ∀ d ∈ cs, IsNumeralChar d) : ∀ d ∈ c :: cs, IsNumeralChar d := by
  intro d hd
  rcases List.mem_cons.1 hd with rfl | hd
  · exact Or.inr hc
  · exact h d hd

/-- Whatever is behind a row of digits decides whether all are characters of numerals. -/
theorem isNumeralChar_of_dropWhile {cs : List Char} (h : ∀ c ∈ cs.dropWhile isDigit, IsNumeralChar c) :
    ∀ c ∈ cs, IsNumeralChar c := by
  intro c hc
  rw [← List.takeWhile_append_dropWhile (p := isDigit) (l := cs)] at hc
  rcases List.mem_append.1 hc with hc | hc
  · exact isNumeralChar_of_all List.all_takeWhile c hc
  · exact h c hc

theorem isNumeralChar_of_splitMinus {cs : List Char} (h : ∀ c ∈ (splitMinus cs).2, IsNumeralChar c) :
    ∀ c ∈ cs, IsNumeralChar c := by
  unfold splitMinus at h
  split at h
  · exact isNumeralChar_cons (by decide) h
  · exact h

theorem isNumeralChar_of_signedDigits? {cs : List Char} {n : Int} (h : signedDigits? cs = some n) :
    ∀ c ∈ cs, IsNumeralChar c := by
  unfold signedDigits? at h
  split at h
  rename_i digits heq
  split at heq <;> split at h
  · rename_i hdigits
    cases heq
    exact isNumeralChar_cons (by decide) (isNumeralChar_of_all (by simp_all))
  · cases h
  · rename_i hdigits
    refine isNumeralChar_of_splitMinus (isNumeralChar_of_all ?_)
    rw [heq]
    simp_all
  · cases h

theorem isNumeralChar_of_exponentPart? {cs : List Char} {n : Int} (h : exponentPart? cs = some n) :
    ∀ c ∈ cs, IsNumeralChar c := by
  cases cs with
  | nil => simp
  | cons c cs =>
    rw [exponentPart?] at h
    split at h
    · rename_i he
      have hc : c = 'e' ∨ c = 'E' := by simpa using he
      refine isNumeralChar_cons ?_ (isNumeralChar_of_signedDigits? h)
      rcases hc with rfl | rfl <;> decide
    · cases h

theorem isNumeralChar_of_unsignedDecimal? {cs : List Char} {d : Decimal} (h : unsignedDecimal? cs = some d) :
    ∀ c ∈ cs, IsNumeralChar c := by
  unfold unsignedDecimal? at h
  refine isNumeralChar_of_dropWhile ?_
  split at h
  · rename_i rest hrest
    dsimp only at h
    split at h
    · cases h
    · obtain ⟨exponent, hexponent, -⟩ := Option.map_eq_some_iff.1 h
      rw [hrest]
      exact isNumeralChar_cons (by decide) (isNumeralChar_of_dropWhile (isNumeralChar_of_exponentPart? hexponent))
  · dsimp only at h
    split at h
    · cases h
    · obtain ⟨exponent, hexponent, -⟩ := Option.map_eq_some_iff.1 h
      exact isNumeralChar_of_exponentPart? hexponent

/-- A numeral of a double is one word. -/
theorem isWord_of_floatNumeral? {cs : List Char} {x : Binary64} (h : floatNumeral? cs = some x) : IsWord cs := by
  obtain ⟨d, hd, -⟩ := Option.map_eq_some_iff.1 h
  refine isWord_of_numeralChars ?_ (isNumeralChar_of_splitMinus (isNumeralChar_of_unsignedDecimal? hd))
  rintro rfl
  cases h

/-- A numeral of an integer is one word. -/
theorem isWord_of_integerNumeral? {cs : List Char} {numeral : Bool × List Char}
    (h : integerNumeral? cs = some numeral) : IsWord cs := by
  have hdigits : ∀ c ∈ (splitMinus cs).2, IsNumeralChar c := by
    unfold integerNumeral? at h
    dsimp only at h
    split at h
    · exact isNumeralChar_of_all (by simp_all)
    · cases h
  refine isWord_of_numeralChars ?_ (isNumeralChar_of_splitMinus hdigits)
  rintro rfl
  cases h

/-! ## Numerals are numbers -/

theorem constants_are_no_numerals : ∀ word ∈ ["nil", "true", "false"],
    integerNumeral? word.toList = none ∧ floatNumeral? word.toList = none := by
  decide

theorem ne_constant_of_numeral {cs : List Char} (h : ¬ (integerNumeral? cs = none ∧ floatNumeral? cs = none)) :
    ∀ word ∈ ["nil", "true", "false"], (cs == word.toList) = false := by
  intro word hword
  rw [beq_eq_false_iff_ne]
  rintro rfl
  exact h (constants_are_no_numerals word hword)

theorem atomValue_of_integerNumeral? {cs : List Char} {numeral : Bool × List Char}
    (h : integerNumeral? cs = some numeral) : atomValue cs = integerValue numeral.1 numeral.2 := by
  have hne := ne_constant_of_numeral (show ¬(integerNumeral? cs = none ∧ floatNumeral? cs = none) by simp [h])
  simp only [atomValue, hne "nil" (by decide), hne "true" (by decide), hne "false" (by decide), h,
    Bool.false_eq_true, if_false]

/-- An integer numeral has neither point nor exponent, so it is not one of a double. -/
theorem integerNumeral?_of_floatNumeral? {cs : List Char} {x : Binary64} (h : floatNumeral? cs = some x) :
    integerNumeral? cs = none := by
  unfold floatNumeral? at h
  unfold integerNumeral?
  generalize splitMinus cs = parts at h ⊢
  obtain ⟨negative, unsigned⟩ := parts
  dsimp only at h ⊢
  rw [if_neg]
  intro hdigits
  -- of digits alone nothing is left for a point or an exponent
  obtain ⟨-, hall⟩ := Bool.and_eq_true_iff.1 hdigits
  have hdrop : unsigned.dropWhile isDigit = [] := by
    rw [← List.append_nil unsigned, List.dropWhile_append_of_pos fun c hc => List.all_eq_true.1 hall c hc,
      List.dropWhile_nil]
  have hnone : unsignedDecimal? unsigned = none := by
    unfold unsignedDecimal?
    rw [hdrop]
    simp
  rw [hnone] at h
  cases h

theorem atomValue_of_floatNumeral? {cs : List Char} {x : Binary64} (h : floatNumeral? cs = some x) :
    atomValue cs = .ok (.float x) := by
  have hne := ne_constant_of_numeral (show ¬(integerNumeral? cs = none ∧ floatNumeral? cs = none) by simp [h])
  simp only [atomValue, hne "nil" (by decide), hne "true" (by decide), hne "false" (by decide), h,
    integerNumeral?_of_floatNumeral? h, Bool.false_eq_true, if_false]

end SmallLisp.Source
