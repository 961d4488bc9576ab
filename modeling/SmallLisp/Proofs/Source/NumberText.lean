/-
The texts of numbers are numerals of them. Main statements: the text of a finite double is read back
as the double (`floatNumeral?_toText`), and that of an integer as the integer
(`integerNumeral?_toString`).
-/
import SmallLisp.Proofs.Binary64.Printing
import SmallLisp.Proofs.Source.Numerals

namespace SmallLisp.Source

open Binary64 (ofDecimal exponentText positionalText scientificText decimalText shortestDecimal)
open Text (isDigit numberOfDigits IsDigitRow)

/-! ## Reading unsigned decimals -/

/-- A tail that no digit begins. -/
def EndsDigits (tail : List Char) : Prop := ∀ c ∈ tail.head?, isDigit c = false

theorem takeWhile_append_tail {digits tail : List Char} (hdigits : ∀ c ∈ digits, isDigit c = true)
    (htail : EndsDigits tail) : (digits ++ tail).takeWhile isDigit = digits := by
  rw [List.takeWhile_append_of_pos hdigits]
  cases tail with
  | nil => simp
  | cons c cs => rw [List.takeWhile_cons_of_neg (by simp [htail c rfl]), List.append_nil]

theorem dropWhile_append_tail {digits tail : List Char} (hdigits : ∀ c ∈ digits, isDigit c = true)
    (htail : EndsDigits tail) : (digits ++ tail).dropWhile isDigit = tail := by
  rw [List.dropWhile_append_of_pos hdigits]
  cases tail with
  | nil => rfl
  | cons c cs => rw [List.dropWhile_cons_of_neg (by simp [htail c rfl])]

theorem endsDigits_of_exponentPart? {tail : List Char} {e : Int} (h : exponentPart? tail = some e) :
    EndsDigits tail := by
  intro c hc
  cases tail with
  | nil => cases hc
  | cons d ds =>
    cases hc
    rw [exponentPart?] at h
    split at h
    · rename_i he
      have he' : c = 'e' ∨ c = 'E' := by simpa using he
      rcases he' with rfl | rfl <;> decide
    · cases h

/-- A numeral with digits before its point. -/
theorem unsignedDecimal?_point {whole fraction tail : List Char} {e : Int} (hwhole : IsDigitRow whole)
    (hfraction : ∀ c ∈ fraction, isDigit c = true) (htail : exponentPart? tail = some e) :
    unsignedDecimal? (whole ++ '.' :: (fraction ++ tail)) =
      some ⟨numberOfDigits (whole ++ fraction), e - fraction.length⟩ := by
  have hpoint : EndsDigits ('.' :: (fraction ++ tail)) := by
    rintro c ⟨⟩; decide
  have hend := endsDigits_of_exponentPart? htail
  have hempty : whole.isEmpty = false := List.isEmpty_eq_false_iff.2 hwhole.ne_nil
  simp only [unsignedDecimal?, takeWhile_append_tail hwhole.isDigit hpoint, dropWhile_append_tail hwhole.isDigit hpoint,
    takeWhile_append_tail hfraction hend, dropWhile_append_tail hfraction hend, hempty, htail, Bool.false_and,
    Bool.false_eq_true, if_false, Option.map_some]

/-- A numeral without a point. -/
theorem unsignedDecimal?_exponent {whole tail : List Char} {e : Int} (hwhole : IsDigitRow whole)
    (htail : exponentPart? ('e' :: tail) = some e) :
    unsignedDecimal? (whole ++ 'e' :: tail) = some ⟨numberOfDigits whole, e⟩ := by
  have hend := endsDigits_of_exponentPart? htail
  have hempty : whole.isEmpty = false := List.isEmpty_eq_false_iff.2 hwhole.ne_nil
  unfold unsignedDecimal?
  rw [takeWhile_append_tail hwhole.isDigit hend, dropWhile_append_tail hwhole.isDigit hend]
  split
  · rename_i rest hpoint
    exact absurd (List.cons.inj hpoint).1 (by decide)
  · simp only [hempty, List.isEmpty_cons, htail, Bool.or_self, Bool.false_eq_true, if_false, Option.map_some]

/-! ## Exponents -/

/-- The digits of an exponent, at least two. -/
theorem exponentText_eq (e : Int) : ∃ digits, (exponentText e).toList = (if e < 0 then '-' else '+') :: digits ∧
    IsDigitRow digits ∧ numberOfDigits digits = e.natAbs := by
  have hrow := Text.isDigitRow_toDigits e.natAbs
  have hnumber := Text.numberOfDigits_toDigits e.natAbs
  unfold exponentText
  dsimp only
  by_cases hshort : (toString e.natAbs).length < 2
  · refine ⟨'0' :: Nat.toDigits 10 e.natAbs, ?_, hrow.zeros_append 1, ?_⟩
    · rw [if_pos hshort]
      split <;> simp [Nat.toString_eq_repr, Nat.toList_repr]
    · exact (Text.numberOfDigits_zeros_append 1 _).trans hnumber
  · refine ⟨Nat.toDigits 10 e.natAbs, ?_, hrow, hnumber⟩
    rw [if_neg hshort]
    split <;> simp [Nat.toString_eq_repr, Nat.toList_repr]

theorem signedDigits?_minus {digits : List Char} (h : IsDigitRow digits) :
    signedDigits? ('-' :: digits) = some (-(numberOfDigits digits : Int)) := by
  have hall : digits.all isDigit = true := List.all_eq_true.2 h.isDigit
  have hempty : digits.isEmpty = false := List.isEmpty_eq_false_iff.2 h.ne_nil
  simp [signedDigits?, splitMinus, hall, hempty]

theorem signedDigits?_plus {digits : List Char} (h : IsDigitRow digits) :
    signedDigits? ('+' :: digits) = some (numberOfDigits digits : Int) := by
  have hall : digits.all isDigit = true := List.all_eq_true.2 h.isDigit
  have hempty : digits.isEmpty = false := List.isEmpty_eq_false_iff.2 h.ne_nil
  simp [signedDigits?, hall, hempty]

theorem exponentPart?_exponentText (e : Int) : exponentPart? ('e' :: (exponentText e).toList) = some e := by
  obtain ⟨digits, htext, hrow, hnumber⟩ := exponentText_eq e
  rw [htext, exponentPart?, if_pos (by decide)]
  split
  · rw [signedDigits?_minus hrow, hnumber, Option.some.injEq]
    omega
  · rw [signedDigits?_plus hrow, hnumber, Option.some.injEq]
    omega

/-! ## The texts of positive decimals -/

/-- The characters write a decimal that rounds as this one does. -/
def Writes (cs : List Char) (d : Decimal) : Prop :=
  ∃ d', unsignedDecimal? cs = some d' ∧ ∀ negative, ofDecimal negative d' = ofDecimal negative d

theorem writes_point {whole fraction tail : List Char} {n : Nat} {e : Int} (hwhole : IsDigitRow whole)
    (hfraction : ∀ c ∈ fraction, isDigit c = true) (htail : exponentPart? tail = some e) (zeros : Nat)
    (hnumber : numberOfDigits (whole ++ fraction) = n * 10 ^ zeros) :
    Writes (whole ++ '.' :: (fraction ++ tail)) ⟨n, e - fraction.length + zeros⟩ :=
  ⟨_, unsignedDecimal?_point hwhole hfraction htail, fun negative => by
    rw [hnumber, Binary64.ofDecimal_mul_pow]⟩

theorem writes_positionalText {digits : List Char} (h : IsDigitRow digits) (point : Int) :
    Writes (positionalText digits point).toList ⟨numberOfDigits digits, point - digits.length⟩ := by
  have hnone : exponentPart? [] = some 0 := rfl
  unfold positionalText
  dsimp only
  split
  · rename_i hpoint
    -- a zero before the point, and zeros after it before the first digit
    have hnumber : numberOfDigits (['0'] ++ (List.replicate (-point).toNat '0' ++ digits)) =
        numberOfDigits digits * 10 ^ 0 :=
      calc numberOfDigits (['0'] ++ (List.replicate (-point).toNat '0' ++ digits))
          = numberOfDigits (List.replicate (-point).toNat '0' ++ digits) := Text.numberOfDigits_zeros_append 1 _
        _ = numberOfDigits digits := Text.numberOfDigits_zeros_append _ _
        _ = numberOfDigits digits * 10 ^ 0 := (Nat.mul_one _).symm
    convert writes_point (Text.isDigitRow_toDigits 0) (h.zeros_append (-point).toNat).isDigit hnone 0 hnumber
      using 1
    · simp
    · simp; omega
  · rename_i hpoint
    split
    · rename_i hinside
      -- the point is between the digits
      have hwhole : IsDigitRow (digits.take point.toNat) := by
        refine ⟨fun hnil => ?_, fun c hc => h.ascii c (List.mem_of_mem_take hc)⟩
        rcases List.take_eq_nil_iff.1 hnil with hzero | hempty
        · omega
        · exact h.ne_nil hempty
      have hfraction : ∀ c ∈ digits.drop point.toNat, isDigit c = true :=
        fun c hc => h.isDigit c (List.mem_of_mem_drop hc)
      have hnumber : numberOfDigits (digits.take point.toNat ++ digits.drop point.toNat) =
          numberOfDigits digits * 10 ^ 0 := by
        rw [List.take_append_drop, Nat.pow_zero, Nat.mul_one]
      convert writes_point hwhole hfraction hnone 0 hnumber using 1
      · simp
      · simp; omega
    · rename_i hbehind
      -- zeros fill up to the point, and one more stands after it
      have hzero : ∀ c ∈ ['0'], isDigit c = true := by
        intro c hc
        rw [List.mem_singleton.1 hc]
        decide
      have hnumber : numberOfDigits (digits ++ List.replicate (point.toNat - digits.length) '0' ++ ['0']) =
          numberOfDigits digits * 10 ^ (point.toNat - digits.length + 1) := by
        rw [List.append_assoc, ← List.replicate_succ', Text.numberOfDigits_append_zeros]
      convert writes_point (h.append_zeros (point.toNat - digits.length)) hzero hnone _ hnumber using 1
      · simp
      · simp; omega

theorem writes_scientificText {digits : List Char} (h : IsDigitRow digits) (leading : Int) :
    Writes (scientificText digits leading).toList ⟨numberOfDigits digits, leading - digits.length + 1⟩ := by
  have hexponent := exponentPart?_exponentText leading
  unfold scientificText
  dsimp only
  cases digits with
  | nil => exact absurd rfl h.ne_nil
  | cons d ds =>
    have hd : IsDigitRow [d] := ⟨by simp, fun c hc => h.ascii c (by simp_all)⟩
    cases ds with
    | nil =>
      have hread := unsignedDecimal?_exponent hd hexponent
      refine ⟨⟨numberOfDigits [d], leading⟩, ?_, fun negative => ?_⟩
      · rw [← hread]; simp
      · simp
    | cons d' ds =>
      have hfraction : ∀ c ∈ d' :: ds, isDigit c = true := fun c hc => h.isDigit c (List.mem_cons_of_mem _ hc)
      have hnumber : numberOfDigits ([d] ++ d' :: ds) = numberOfDigits (d :: d' :: ds) * 10 ^ 0 := (Nat.mul_one _).symm
      convert writes_point hd hfraction hexponent 0 hnumber using 1
      · simp
      · congr 1
        simp only [List.length_cons]
        omega

/-- The text of a positive decimal writes it. -/
theorem writes_decimalText {d : Decimal} (hd : d.digits ≠ 0) : Writes (decimalText d).toList d := by
  obtain ⟨hrow, -⟩ := Decimal.trim_spec hd
  have hvalue := fun negative => Binary64.ofDecimal_trim negative hd
  suffices h : Writes (decimalText d).toList ⟨numberOfDigits d.trim.1, d.trim.2⟩ by
    obtain ⟨d', hread, hround⟩ := h
    exact ⟨d', hread, fun negative => (hround negative).trans (hvalue negative)⟩
  unfold decimalText
  dsimp only
  split
  · convert writes_positionalText hrow _ using 2
    ring
  · convert writes_scientificText hrow _ using 2
    ring

/-! ## The texts of doubles -/

theorem floatNumeral?_unsigned {cs : List Char} {d : Decimal} (h : unsignedDecimal? cs = some d) :
    floatNumeral? cs = some (ofDecimal false d) := by
  cases cs with
  | nil => cases h
  | cons c cs =>
    by_cases hc : c = '-'
    · subst hc
      have : isDigit '-' = false := by decide
      simp [unsignedDecimal?, this] at h
    · simp [floatNumeral?, splitMinus, hc, h]

theorem floatNumeral?_minus {cs : List Char} {d : Decimal} (h : unsignedDecimal? cs = some d) :
    floatNumeral? ('-' :: cs) = some (ofDecimal true d) := by
  simp [floatNumeral?, splitMinus, h]

/-- The text of a finite double without its sign. -/
theorem unsignedDecimal?_magnitude {m s : Nat} (h : Binary64.Canonical m s) :
    ∃ d, unsignedDecimal? (if m = 0 then "0.0" else decimalText (shortestDecimal (.finite false m s h))).toList =
      some d ∧ ofDecimal false d = .finite false m s h := by
  by_cases hm : m = 0
  · obtain rfl := hm
    obtain rfl : s = 0 := h.2.2.resolve_left (by decide)
    rw [if_pos rfl]
    exact ⟨⟨0, -1⟩, by decide, rfl⟩
  · obtain ⟨d, hread, hround⟩ := writes_decimalText (Binary64.shortestDecimal_digits_ne_zero hm h)
    rw [if_neg hm]
    exact ⟨d, hread, (hround false).trans (Binary64.ofDecimal_shortestDecimal hm h)⟩

/-- The text of a finite double is read back as the double. -/
theorem floatNumeral?_toText (negative : Bool) {m s : Nat} (h : Binary64.Canonical m s) :
    floatNumeral? (Binary64.toText (.finite negative m s h)).toList = some (.finite negative m s h) := by
  obtain ⟨d, hunsigned, hvalue⟩ := unsignedDecimal?_magnitude h
  rw [Binary64.toText, String.toList_append]
  cases negative with
  | false =>
    have hsign : (if false = true then "-" else "").toList = [] := rfl
    rw [hsign, List.nil_append, floatNumeral?_unsigned hunsigned, hvalue]
  | true =>
    have hsign : (if true = true then "-" else "").toList = ['-'] := rfl
    rw [hsign, List.singleton_append, floatNumeral?_minus hunsigned, Binary64.ofDecimal_neg, hvalue]
    rfl

/-! ## The texts of integers -/

theorem toList_toString_int (n : Int) :
    (toString n).toList = if n < 0 then '-' :: Nat.toDigits 10 n.natAbs else Nat.toDigits 10 n.natAbs := by
  cases n with
  | ofNat n =>
    rw [if_neg (by simp)]
    exact Nat.toList_repr
  | negSucc n =>
    rw [if_pos (Int.negSucc_lt_zero n)]
    show ("-" ++ Nat.repr (n + 1)).toList = _
    rw [String.toList_append, Nat.toList_repr]
    rfl

/-- The text of an integer is a numeral with its sign and digits. -/
theorem integerNumeral?_toString (n : Int) :
    integerNumeral? (toString n).toList = some (decide (n < 0), Nat.toDigits 10 n.natAbs) := by
  have hrow := Text.isDigitRow_toDigits n.natAbs
  have hall : (Nat.toDigits 10 n.natAbs).all isDigit = true := List.all_eq_true.2 hrow.isDigit
  have hempty : (Nat.toDigits 10 n.natAbs).isEmpty = false := List.isEmpty_eq_false_iff.2 hrow.ne_nil
  rw [toList_toString_int]
  split
  · rename_i hneg
    simp [integerNumeral?, splitMinus, hall, hempty, hneg]
  · rename_i hpos
    have hminus : splitMinus (Nat.toDigits 10 n.natAbs) = (false, Nat.toDigits 10 n.natAbs) := by
      unfold splitMinus
      split
      · rename_i cs hcs
        -- the minus sign is no digit
        exact absurd (hrow.ascii '-' (hcs ▸ List.mem_cons_self ..)) (by decide)
      · rfl
    simp [integerNumeral?, hminus, hall, hempty, hpos]

/-- An integer that is not too long is read back. -/
theorem atomValue_toString {n : Int} (h : decimalLength n.natAbs ≤ digitLimit) :
    atomValue (toString n).toList = .ok (.int n) := by
  rw [atomValue_of_integerNumeral? (integerNumeral?_toString n), integerValue,
    if_pos (show (Nat.toDigits 10 n.natAbs).length ≤ digitLimit from h)]
  simp only [Text.numberOfDigits_toDigits, decide_eq_true_eq]
  split
  · rw [show -(n.natAbs : Int) = n by omega]
  · rw [show (n.natAbs : Int) = n by omega]

end SmallLisp.Source
