/-
Rows of decimal digits and the numbers that they write. Main statement: the digits of a natural
number write that number (`numberOfDigits_toDigits`).
-/
import SmallLisp.Text.Character
import Mathlib.Tactic.Ring

namespace SmallLisp.Text

/-! ## The digits of ASCII -/

theorem digitValue?_of_isDigit {c : Char} (h : c.isDigit = true) : digitValue? c = some (c.toNat - 48) := by
  have hc : 48 ≤ c.toNat ∧ c.toNat ≤ 57 := by
    simpa [Char.isDigit, UInt32.le_iff_toNat_le] using h
  have h1 : decide (0x30 ≤ c.toNat) = true := by simpa using hc.1
  have h2 : decide (c.toNat < 0x30 + 10) = true := by simp; omega
  simp only [digitValue?, zeros, List.find?_cons, h1, h2, Bool.and_self, Option.map_some]

theorem isDigit_of_isDigit {c : Char} (h : c.isDigit = true) : isDigit c = true := by
  rw [isDigit, digitValue?_of_isDigit h]; rfl

/-- A row of ASCII digits, at least one of them. -/
structure IsDigitRow (digits : List Char) : Prop where
  ne_nil : digits ≠ []
  ascii : ∀ c ∈ digits, c.isDigit = true

theorem isDigitRow_toDigits (n : Nat) : IsDigitRow (Nat.toDigits 10 n) :=
  ⟨Nat.toDigits_ne_nil, fun _ => Nat.isDigit_of_mem_toDigits (by decide) (by decide)⟩

namespace IsDigitRow

variable {digits : List Char}

theorem isDigit (h : IsDigitRow digits) : ∀ c ∈ digits, Text.isDigit c = true :=
  fun c hc => isDigit_of_isDigit (h.ascii c hc)

theorem zeros_append (count : Nat) (h : IsDigitRow digits) : IsDigitRow (List.replicate count '0' ++ digits) := by
  refine ⟨by simp [h.ne_nil], fun c hc => ?_⟩
  rcases List.mem_append.1 hc with hc | hc
  · rw [List.eq_of_mem_replicate hc]; rfl
  · exact h.ascii c hc

theorem append_zeros (count : Nat) (h : IsDigitRow digits) : IsDigitRow (digits ++ List.replicate count '0') := by
  refine ⟨by simp [h.ne_nil], fun c hc => ?_⟩
  rcases List.mem_append.1 hc with hc | hc
  · exact h.ascii c hc
  · rw [List.eq_of_mem_replicate hc]; rfl

end IsDigitRow

/-! ## Numbers -/

theorem numberOfDigits_snoc (cs : List Char) (c : Char) :
    numberOfDigits (cs ++ [c]) = numberOfDigits cs * 10 + (digitValue? c).getD 0 := by
  simp [numberOfDigits]

theorem numberOfDigits_append (as bs : List Char) :
    numberOfDigits (as ++ bs) = numberOfDigits as * 10 ^ bs.length + numberOfDigits bs := by
  induction bs generalizing as with
  | nil => simp [numberOfDigits]
  | cons b bs ih =>
    have hb : numberOfDigits (b :: bs) = (digitValue? b).getD 0 * 10 ^ bs.length + numberOfDigits bs := by
      have := ih [b]
      rwa [List.singleton_append, ← List.nil_append [b], numberOfDigits_snoc, show numberOfDigits [] = 0 from rfl,
        Nat.zero_mul, Nat.zero_add] at this
    rw [List.append_cons, ih, numberOfDigits_snoc, hb, List.length_cons]
    ring

theorem numberOfDigits_zeros (count : Nat) : numberOfDigits (List.replicate count '0') = 0 := by
  induction count with
  | zero => rfl
  | succ count ih =>
    rw [List.replicate_succ', numberOfDigits_append, ih]
    decide

theorem numberOfDigits_zeros_append (count : Nat) (cs : List Char) :
    numberOfDigits (List.replicate count '0' ++ cs) = numberOfDigits cs := by
  rw [numberOfDigits_append, numberOfDigits_zeros, Nat.zero_mul, Nat.zero_add]

theorem numberOfDigits_append_zeros (cs : List Char) (count : Nat) :
    numberOfDigits (cs ++ List.replicate count '0') = numberOfDigits cs * 10 ^ count := by
  rw [numberOfDigits_append, numberOfDigits_zeros, List.length_replicate, Nat.add_zero]

theorem numberOfDigits_eq_ofDigitChars {cs : List Char} (h : ∀ c ∈ cs, c.isDigit = true) :
    numberOfDigits cs = Nat.ofDigitChars 10 cs 0 := by
  -- both are folds, which agree from every start
  suffices h' : ∀ start, cs.foldl (fun n c => n * 10 + (digitValue? c).getD 0) start = Nat.ofDigitChars 10 cs start from
    h' 0
  induction cs with
  | nil => simp
  | cons c cs ih =>
    intro start
    rw [List.foldl_cons, ih fun d hd => h d (List.mem_cons_of_mem _ hd), Nat.ofDigitChars_cons,
      digitValue?_of_isDigit (h c (List.mem_cons_self ..)), Option.getD_some, Nat.mul_comm]
    rfl

theorem numberOfDigits_toDigits (n : Nat) : numberOfDigits (Nat.toDigits 10 n) = n := by
  rw [numberOfDigits_eq_ofDigitChars fun c => Nat.isDigit_of_mem_toDigits (by decide) (by decide),
    Nat.ofDigitChars_ten_toDigits]

end SmallLisp.Text
