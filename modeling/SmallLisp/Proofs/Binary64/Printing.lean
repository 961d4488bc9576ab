/-
What is printed of a positive double: the shortest decimal reads back as the double
(`ofDecimal_shortestDecimal`), and dropping the zeros at the end of its digits does not change that.
-/
import SmallLisp.Proofs.Binary64.Rounding
import SmallLisp.Proofs.Text.Digits

namespace SmallLisp

open Text (numberOfDigits)

/-! ## The shortest decimal -/

namespace Binary64

theorem roundQuotient_eq (num den : Nat) :
    roundQuotient num den = num / den ∨ roundQuotient num den = num / den + 1 := by
  unfold roundQuotient
  dsimp only
  split
  · exact Or.inr rfl
  · exact Or.inl rfl

/-- Whatever the search settles on reads back, since that is what it tries. -/
theorem nearestOnGrid?_readsBack {x : Binary64} {exponent : Int} {d : Decimal}
    (h : nearestOnGrid? x exponent = some d) : ofDecimal false d = x := by
  unfold nearestOnGrid? at h
  generalize gridQuotient x.magnitude exponent = quotient at h
  obtain ⟨num, den⟩ := quotient
  simp only [beq_iff_eq] at h
  split at h
  · rename_i hbelow
    split at h
    · rename_i habove
      cases h
      -- both neighbours read back, and rounding picks one of them
      rcases roundQuotient_eq num den with he | he
      · rw [he, hbelow]
      · rw [he, habove]
    · cases h
      exact hbelow
  · split at h
    · rename_i habove
      cases h
      exact habove
    · cases h

/-- The shortest decimal of a positive double reads back as the double. -/
theorem ofDecimal_shortestDecimal {m s : Nat} (hm : m ≠ 0) (h : Canonical m s) :
    ofDecimal false (shortestDecimal (.finite false m s h)) = .finite false m s h := by
  unfold shortestDecimal
  dsimp only
  cases hfound : (List.range 17).findSome? fun (n : Nat) =>
      nearestOnGrid? (.finite false m s h) (leadingExponent (magnitude (.finite false m s h)) - n) with
  | none => exact ofDecimal_exactDecimal hm h
  | some d =>
    obtain ⟨n, -, hn⟩ := List.exists_of_findSome?_eq_some hfound
    exact nearestOnGrid?_readsBack hn

theorem shortestDecimal_digits_ne_zero {m s : Nat} (hm : m ≠ 0) (h : Canonical m s) :
    (shortestDecimal (.finite false m s h)).digits ≠ 0 := by
  intro hzero
  have hread := ofDecimal_shortestDecimal hm h
  rw [ofDecimal, if_pos hzero, zero] at hread
  injection hread with _ hm'
  exact hm hm'.symm

end Binary64

/-! ## Trimmed digits -/

namespace Decimal

theorem toDigits_eq_trim (d : Decimal) :
    ∃ zeros, Nat.toDigits 10 d.digits = d.trim.1 ++ List.replicate zeros '0' ∧ d.trim.2 = d.exponent + zeros := by
  unfold trim
  dsimp only
  generalize Nat.toDigits 10 d.digits = digits
  let zeros := digits.reverse.takeWhile (· == '0')
  refine ⟨zeros.length, ?_, rfl⟩
  -- the digits backwards begin with the zeros that are taken off
  have hzeros : zeros = List.replicate zeros.length '0' :=
    List.eq_replicate_iff.2 ⟨rfl, fun c hc => beq_iff_eq.1 (List.all_eq_true.1 List.all_takeWhile c hc)⟩
  have hprefix : zeros ++ digits.reverse.drop zeros.length = digits.reverse := by
    obtain ⟨rest, hrest⟩ := List.takeWhile_prefix (p := (· == '0')) (l := digits.reverse)
    rw [← hrest, List.drop_left]
  have := congrArg List.reverse hprefix
  rw [List.reverse_append, List.reverse_reverse, hzeros, List.reverse_replicate, List.length_replicate] at this
  exact this.symm

/-- The trimmed digits of a positive decimal, with the exponent that belongs to them. -/
theorem trim_spec {d : Decimal} (hd : d.digits ≠ 0) :
    Text.IsDigitRow d.trim.1 ∧ ∃ zeros : Nat, d.digits = numberOfDigits d.trim.1 * 10 ^ zeros ∧
      d.trim.2 = d.exponent + zeros := by
  obtain ⟨zeros, hdigits, hexponent⟩ := d.toDigits_eq_trim
  have hnumber : d.digits = numberOfDigits d.trim.1 * 10 ^ zeros := by
    conv_lhs => rw [← Text.numberOfDigits_toDigits d.digits, hdigits]
    exact Text.numberOfDigits_append_zeros _ zeros
  refine ⟨⟨fun hnil => hd ?_, fun c hc => ?_⟩, zeros, hnumber, hexponent⟩
  · rw [hnumber, hnil]; exact Nat.zero_mul _
  · refine Nat.isDigit_of_mem_toDigits (b := 10) (n := d.digits) (by decide) (by decide) ?_
    rw [hdigits]
    exact List.mem_append_left _ hc

end Decimal

/-- The trimmed digits and their exponent are the same decimal. -/
theorem Binary64.ofDecimal_trim (negative : Bool) {d : Decimal} (hd : d.digits ≠ 0) :
    ofDecimal negative ⟨numberOfDigits d.trim.1, d.trim.2⟩ = ofDecimal negative d := by
  obtain ⟨-, zeros, hdigits, hexponent⟩ := Decimal.trim_spec hd
  rw [hexponent, ← ofDecimal_mul_pow, ← hdigits]

end SmallLisp
