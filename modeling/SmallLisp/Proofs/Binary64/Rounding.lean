/-
Reading decimals depends on their value alone: common factors of a quotient and trailing zeros of the
digits change nothing, and a minus sign only negates. A finite double is what its own units round to.
-/
import SmallLisp.Binary64.Decimal
import Mathlib.Tactic

namespace SmallLisp.Binary64

/-! ## Common factors -/

theorem roundQuotient_mul (num den : Nat) {k : Nat} (hk : 0 < k) :
    roundQuotient (num * k) (den * k) = roundQuotient num den := by
  have h1 : num * k / (den * k) = num / den := Nat.mul_div_mul_right num den hk
  have h2 : num * k % (den * k) = num % den * k := Nat.mul_mod_mul_right k num den
  have h3 : den * k < 2 * (num % den * k) ↔ den < 2 * (num % den) := by
    rw [← mul_assoc]; exact Nat.mul_lt_mul_right hk
  have h4 : 2 * (num % den * k) = den * k ↔ 2 * (num % den) = den := by
    rw [← mul_assoc]; exact Nat.mul_left_inj hk.ne'
  simp only [roundQuotient, h1, h2, h3, h4]

theorem ofUnits_mul (negative : Bool) (num den : Nat) {k : Nat} (hk : 0 < k) :
    ofUnits negative (num * k) (den * k) = ofUnits negative num den := by
  have h1 : num * k / (den * k) = num / den := Nat.mul_div_mul_right num den hk
  have h2 : ∀ scale, (den * k) <<< scale = den <<< scale * k := by
    intro scale; rw [Nat.shiftLeft_eq, Nat.shiftLeft_eq]; ring
  simp only [ofUnits, h1, h2, roundQuotient_mul _ _ hk]

theorem ofRatio_mul (negative : Bool) (num den : Nat) {k : Nat} (hk : 0 < k) :
    ofRatio negative (num * k) (den * k) = ofRatio negative num den := by
  rw [ofRatio, show num * k * unitsPerOne = num * unitsPerOne * k by ring, ofUnits_mul _ _ _ hk, ofRatio]

/-! ## Signs -/

theorem ofParts_neg (mantissa scale : Nat) : ofParts true mantissa scale = (ofParts false mantissa scale).neg := by
  unfold ofParts
  split <;> rfl

theorem ofUnits_neg (num den : Nat) : ofUnits true num den = (ofUnits false num den).neg := by
  simp only [ofUnits, ofParts_neg]
  split <;> rfl

theorem ofDecimal_neg (d : Decimal) : ofDecimal true d = (ofDecimal false d).neg := by
  simp only [ofDecimal, ofRatio, ofUnits_neg]
  split_ifs <;> rfl

/-! ## Trailing zeros -/

theorem decimalLength_mul_ten {n : Nat} (hn : n ≠ 0) : decimalLength (n * 10) = decimalLength n + 1 := by
  have h := Nat.toDigits_append_toDigits (b := 10) (n := n) (d := 0) (by decide) (Nat.pos_of_ne_zero hn) (by decide)
  rw [Nat.add_zero, Nat.toDigits_zero] at h
  rw [decimalLength, Nat.mul_comm, ← h, List.length_append, decimalLength, List.length_singleton]

theorem ofDecimal_mul_ten (negative : Bool) (n : Nat) (e : Int) :
    ofDecimal negative ⟨n * 10, e⟩ = ofDecimal negative ⟨n, e + 1⟩ := by
  by_cases hn : n = 0
  · simp [ofDecimal, hn]
  have hlen : (decimalLength (n * 10) : Int) + e = decimalLength n + (e + 1) := by
    rw [decimalLength_mul_ten hn]; push_cast; ring
  have hn' : n * 10 ≠ 0 := by omega
  simp only [ofDecimal, hn, hn', if_false, hlen]
  -- both sides take the same branch, except where the exponent passes from -1 to 0
  split_ifs with h1 h2 h3 h4 h4
  · rfl
  · rfl
  · rw [show (e + 1).toNat = e.toNat + 1 by omega, Nat.pow_eq, Nat.pow_eq, pow_succ]
    congr 1; ring
  · omega
  · have he : e = -1 := by omega
    subst he
    have := ofRatio_mul negative n 1 (k := 10) (by decide)
    simpa using this
  · rw [show (-e).toNat = (-(e + 1)).toNat + 1 by omega, Nat.pow_eq, Nat.pow_eq, pow_succ,
      ofRatio_mul _ _ _ (by decide)]

/-- Zeros at the end of the digits may be moved into the exponent. -/
theorem ofDecimal_mul_pow (negative : Bool) (n k : Nat) (e : Int) :
    ofDecimal negative ⟨n * 10 ^ k, e⟩ = ofDecimal negative ⟨n, e + k⟩ := by
  induction k generalizing e with
  | zero => simp
  | succ k ih =>
    rw [pow_succ, ← mul_assoc, ofDecimal_mul_ten, ih]
    congr 2; push_cast; ring

/-! ## Exact values -/

theorem roundQuotient_shiftLeft (m s : Nat) : roundQuotient (m <<< s) (1 <<< s) = m := by
  have hpos : 0 < 2 ^ s := by positivity
  have h1 : m * 2 ^ s / (1 * 2 ^ s) = m := by rw [one_mul, Nat.mul_div_cancel _ hpos]
  have h2 : m * 2 ^ s % (1 * 2 ^ s) = 0 := by rw [one_mul, Nat.mul_mod_left]
  simp only [roundQuotient, Nat.shiftLeft_eq, h1, h2]
  rw [if_neg]
  omega

theorem scaleFor_shiftLeft {m s : Nat} (hm : m ≠ 0) (h : Canonical m s) : scaleFor (m <<< s) = s := by
  obtain ⟨hlt, -, hfull⟩ := h
  have hlog : (m <<< s).log2 = m.log2 + s := by
    rw [Nat.shiftLeft_eq, Nat.log2_eq_iff (by positivity)]
    obtain ⟨h1, h2⟩ := (Nat.log2_eq_iff hm).1 rfl
    rw [pow_add, show m.log2 + s + 1 = m.log2 + 1 + s by ring, pow_add]
    exact ⟨Nat.mul_le_mul_right _ h1, Nat.mul_lt_mul_of_pos_right h2 (by positivity)⟩
  have hlog53 : m.log2 < 53 := (Nat.log2_lt hm).2 hlt
  rw [scaleFor, hlog]
  -- a full mantissa has exactly 53 bits; any other occurs at scale 0 only
  rcases hfull with hfull | rfl
  · have : 52 ≤ m.log2 := (Nat.le_log2 hm).2 hfull
    omega
  · omega

/-- A double is what its units round to. -/
theorem ofUnits_magnitude {m s : Nat} (hm : m ≠ 0) (h : Canonical m s) :
    ofUnits false (m <<< s) 1 = .finite false m s h := by
  have hlt : m ≠ Nat.pow 2 53 := h.1.ne
  simp only [ofUnits, Nat.div_one, scaleFor_shiftLeft hm h, roundQuotient_shiftLeft, if_neg hlt, ofParts, dif_pos h]

theorem decimalLength_le_iff {n k : Nat} (hk : 0 < k) : decimalLength n ≤ k ↔ n < 10 ^ k :=
  Nat.length_toDigits_le_iff (by decide) hk

/-- A fraction that is neither far beyond the range of doubles nor far below it is rounded. -/
theorem ofDecimal_fraction (negative : Bool) {n e : Nat} (hn : n ≠ 0) (he : 0 < e)
    (hhigh : decimalLength n ≤ e + 310) (hlow : e ≤ decimalLength n + 330) :
    ofDecimal negative ⟨n, -e⟩ = ofRatio negative n (10 ^ e) := by
  simp only [ofDecimal]
  rw [if_neg hn, if_neg (by omega), if_neg (by omega), if_neg (by omega), Int.neg_neg, Int.toNat_natCast,
    Nat.pow_eq]

/-- How the digits of exact decimals are scaled. -/
theorem exactDecimal_scaling : ∃ five : Nat, 10 ^ 743 ≤ five ∧ 2 ^ 2098 * five ≤ 10 ^ (1074 + 310) ∧
    five * unitsPerOne = 10 ^ 1074 ∧ ∀ x, exactDecimal x = ⟨x.magnitude * five, -1074⟩ :=
  ⟨Nat.pow 5 1074, by decide +kernel, by decide +kernel, by decide +kernel, fun _ => rfl⟩

theorem magnitude_lt {m s : Nat} (h : Canonical m s) : m <<< s < 2 ^ 2098 := by
  rw [Nat.shiftLeft_eq]
  calc m * 2 ^ s < 2 ^ 53 * 2 ^ s := Nat.mul_lt_mul_of_pos_right h.1 (by positivity)
    _ ≤ 2 ^ 53 * 2 ^ 2045 := Nat.mul_le_mul_left _ (Nat.pow_le_pow_right (by decide) h.2.1)
    _ = 2 ^ 2098 := by decide +kernel

/-- The decimal that writes a double's units exactly reads back. -/
theorem ofDecimal_exactDecimal {m s : Nat} (hm : m ≠ 0) (h : Canonical m s) :
    ofDecimal false (exactDecimal (.finite false m s h)) = .finite false m s h := by
  -- the powers are opaque from here on: nothing should evaluate them again
  obtain ⟨five, hlow, hhigh, hone, hexact⟩ := exactDecimal_scaling
  have hpos : 0 < m <<< s := by
    rw [Nat.shiftLeft_eq]; exact Nat.mul_pos (Nat.pos_of_ne_zero hm) (by positivity)
  have hfive : 0 < five := Nat.lt_of_lt_of_le (Nat.pow_pos (by decide)) hlow
  have hshort : decimalLength (m <<< s * five) ≤ 1074 + 310 := by
    rw [decimalLength_le_iff (by decide)]
    exact (Nat.mul_lt_mul_of_pos_right (magnitude_lt h) hfive).trans_le hhigh
  have hlong : 743 < decimalLength (m <<< s * five) := by
    rw [← not_le, decimalLength_le_iff (by decide), not_lt]
    exact hlow.trans (Nat.le_mul_of_pos_left five hpos)
  calc ofDecimal false (exactDecimal (.finite false m s h))
      = ofRatio false (m <<< s * five) (10 ^ 1074) := by
        rw [hexact]
        exact ofDecimal_fraction (e := 1074) false (Nat.mul_pos hpos hfive).ne' (by decide) hshort
          (Nat.add_le_add_right hlong 330)
    _ = ofUnits false (m <<< s * 10 ^ 1074) (1 * 10 ^ 1074) := by rw [ofRatio, Nat.mul_assoc, hone, Nat.one_mul]
    _ = .finite false m s h := by rw [ofUnits_mul _ _ _ (Nat.pow_pos (by decide)), ofUnits_magnitude hm h]

end SmallLisp.Binary64
