/-
Division of integers. What is computed from magnitudes and signs is the exact quotient without its fraction
(`Number.quotient_eq_tdiv`). Quotients taken one after the other come to the quotient by the product of the divisors,
as nothing depends on the fractions that are lost on the way (`tdiv_tdiv`); so the order of the divisors does not
matter. Main statement: `divide_truncates`.
-/
import Mathlib.Algebra.BigOperators.Ring.List
import Mathlib.Data.Rat.Floor
import SmallLisp.Proofs.Primitive.Comparisons

namespace SmallLisp

/-! ## Without the fraction -/

/-- A rational number without its fraction: the next integer toward zero. -/
def truncate (r : ℚ) : ℤ := if 0 ≤ r then ⌊r⌋ else ⌈r⌉

theorem truncate_neg (r : ℚ) : truncate (-r) = -truncate r := by
  rcases lt_trichotomy r 0 with h | rfl | h
  · rw [truncate, truncate, if_pos (neg_nonneg.2 h.le), if_neg h.not_ge, Int.floor_neg]
  · simp [truncate]
  · rw [truncate, truncate, if_neg (neg_lt_zero.2 h).not_ge, if_pos h.le, Int.ceil_neg]

theorem truncate_natCast_div (m n : ℕ) : truncate (m / n) = (m / n : ℕ) := by
  have hnonneg : (0 : ℚ) ≤ m / n := div_nonneg m.cast_nonneg n.cast_nonneg
  rw [truncate, if_pos hnonneg]
  exact Rat.floor_natCast_div_natCast m n

theorem truncate_intCast_div (m n : ℤ) : truncate (m / n) = m.tdiv n := by
  -- on both sides the signs come to the front, and natural numbers are left
  obtain ⟨m, rfl | rfl⟩ := m.eq_nat_or_neg <;> obtain ⟨n, rfl | rfl⟩ := n.eq_nat_or_neg <;>
    simp only [Int.cast_neg, Int.cast_natCast, neg_div, div_neg, neg_neg, truncate_neg, truncate_natCast_div,
      Int.neg_tdiv, Int.tdiv_neg, Int.ofNat_tdiv]

/-- A quotient without its fraction leads to the same next quotient as the exact one. -/
theorem tdiv_tdiv (m n k : ℤ) : (m.tdiv n).tdiv k = m.tdiv (n * k) := by
  obtain ⟨m, rfl | rfl⟩ := m.eq_nat_or_neg <;> obtain ⟨n, rfl | rfl⟩ := n.eq_nat_or_neg <;>
    obtain ⟨k, rfl | rfl⟩ := k.eq_nat_or_neg <;>
    simp only [Int.neg_tdiv, Int.tdiv_neg, neg_mul, mul_neg, neg_neg, ← Int.ofNat_tdiv, ← Nat.cast_mul,
      Nat.div_div_eq_div_mul]

/-! ## Numbers -/

namespace Number

/-- The quotient of the magnitudes gets the sign of the exact one, or is zero. -/
theorem quotient_eq_tdiv (m n : ℤ) : quotient m n = m.tdiv n := by
  cases n with
  | ofNat n =>
    cases n with
    | zero => simp [quotient]
    | succ n =>
      have hpos : decide (0 < Int.ofNat (n + 1)) = true := decide_eq_true (Int.natCast_pos.2 n.succ_pos)
      rw [quotient, hpos]
      cases m <;> rfl
  | negSucc n => cases m <;> rfl

theorem div_zero (a : Number) : a.div (.int 0) = .error .divisionByZero := rfl

theorem div_int {b : ℤ} (h : b ≠ 0) (a : ℤ) : div (.int a) (.int b) = .ok (.int (a.tdiv b)) := by
  have hzero : isZero (.int b) = false := beq_false_of_ne h
  rw [div, hzero, ← quotient_eq_tdiv]
  rfl

end Number

/-- Divisors one after the other come to their product, unless one of them is zero. -/
theorem foldNumbers_div (a : ℤ) (bs : List ℤ) : Arithmetic.foldNumbers Number.div (.int a) (bs.map .int) =
    if 0 ∈ bs then .error .divisionByZero else .ok (.int (a.tdiv bs.prod)) := by
  -- each divisor makes a new dividend for those that follow
  induction bs generalizing a with
  | nil =>
    rw [if_neg List.not_mem_nil, List.prod_nil, Int.tdiv_one]
    rfl
  | cons b bs ih =>
    rw [List.map_cons, Arithmetic.foldNumbers]
    by_cases hb : b = 0
    · rw [hb, Number.div_zero, if_pos List.mem_cons_self]
      rfl
    · rw [Number.div_int hb, List.prod_cons, ← tdiv_tdiv]
      simp only [List.mem_cons, Ne.symm hb, false_or]
      exact ih (a.tdiv b)

theorem foldNumbers_mul (a : ℤ) (bs : List ℤ) :
    Arithmetic.foldNumbers Number.mul (.int a) (bs.map .int) = .ok (.int (a * bs.prod)) := by
  induction bs generalizing a with
  | nil =>
    rw [List.prod_nil, mul_one]
    rfl
  | cons b bs ih =>
    rw [List.prod_cons, ← mul_assoc]
    exact ih (a * b)

/-! ## The primitives -/

section Runs

variable (eval : Evaluator) (call : Caller) (frame : FrameId) (s : State)

theorem numbers_int (name : String) (ns : List ℤ) : Run.numbers name (ns.map .int) = pure (ns.map .int) := by
  have h := numbers_toValue name (ns.map .int)
  rwa [List.map_map] at h

theorem multiply_run (bs : List ℤ) : Primitive.multiply.run eval call frame (bs.map .int) s =
    .value (.int bs.prod) s := by
  show (Run.numbers "*" (bs.map .int) >>= fun ns =>
    Number.toValue <$> Run.ofExcept (Arithmetic.foldNumbers Number.mul (.int 1) ns)) s = _
  rw [numbers_int, pure_bind, foldNumbers_mul, one_mul]
  rfl

/-- What division comes to, whichever way its divisors are grouped. -/
theorem divide_run (a : ℤ) {bs : List ℤ} (hne : bs ≠ []) :
    Primitive.divide.run eval call frame (.int a :: bs.map .int) s =
    if 0 ∈ bs then .fault .divisionByZero s else .value (.int (a.tdiv bs.prod)) s := by
  obtain ⟨b, bs, rfl⟩ := List.exists_cons_of_ne_nil hne
  have hrun : Primitive.divide.run eval call frame (.int a :: (b :: bs).map .int) s =
      (Number.toValue <$> Run.ofExcept (Arithmetic.foldNumbers Number.div (.int a) ((b :: bs).map .int))) s := by
    show (Run.numbers "/" ((a :: b :: bs).map .int) >>= _) s = _
    rw [numbers_int]
    rfl
  rw [hrun, foldNumbers_div]
  split <;> rfl

end Runs

/-- An integer is divided by integers, of any sizes and signs. If one of these is zero, that is a fault, and only then.
Otherwise the result is the exact quotient by their product, without its fraction. In both cases it comes to the same
to divide by the computed product, or by the divisors in another order. -/
theorem divide_truncates (eval : Evaluator) (call : Caller) (frame : FrameId) (s : State) (a : ℤ) {bs : List ℤ}
    (hne : bs ≠ []) :
    (Primitive.divide.run eval call frame (.int a :: bs.map .int) s = .fault .divisionByZero s ↔ 0 ∈ bs) ∧
    Fault.divisionByZero.message = "division by zero" ∧
    (0 ∉ bs → Primitive.divide.run eval call frame (.int a :: bs.map .int) s =
      .value (.int (truncate ((a : ℚ) / (bs.prod : ℤ)))) s) ∧
    (∃ product : ℤ,
      Primitive.multiply.run eval call frame (bs.map .int) s = .value (.int product) s ∧ product = bs.prod ∧
      Primitive.divide.run eval call frame [.int a, .int product] s =
        Primitive.divide.run eval call frame (.int a :: bs.map .int) s) ∧
    ∀ cs : List ℤ, cs.Perm bs → Primitive.divide.run eval call frame (.int a :: cs.map .int) s =
      Primitive.divide.run eval call frame (.int a :: bs.map .int) s := by
  refine ⟨⟨fun h => ?_, fun h => ?_⟩, rfl, fun h => ?_, ⟨bs.prod, multiply_run eval call frame s bs, rfl, ?_⟩,
    fun cs hperm => ?_⟩
  · by_contra hzero
    rw [divide_run eval call frame s a hne, if_neg hzero] at h
    cases h
  · rw [divide_run eval call frame s a hne, if_pos h]
  · rw [divide_run eval call frame s a hne, if_neg h, truncate_intCast_div]
  · have hproduct : (0 : ℤ) ∈ [bs.prod] ↔ 0 ∈ bs := by
      rw [List.mem_singleton, eq_comm, List.prod_eq_zero_iff]
    have hsingle := divide_run eval call frame s a (List.cons_ne_nil bs.prod [])
    rw [List.prod_singleton] at hsingle
    rw [divide_run eval call frame s a hne, ← if_congr hproduct rfl rfl]
    exact hsingle
  · have hcs : cs ≠ [] := by
      rintro rfl
      exact hne hperm.nil_eq.symm
    rw [divide_run eval call frame s a hne, divide_run eval call frame s a hcs, hperm.prod_eq,
      if_congr hperm.mem_iff rfl rfl]

/-- Divisors of both signs, each of which leaves a fraction. -/
def mixedDivisors : List ℤ := [7, -2, 3]

theorem divide_truncates_mixedDivisors :
    let eval : Evaluator := fun _ _ => Run.halt .steps
    let call : Caller := fun _ _ _ => Run.halt .steps
    let s : State := ⟨#[], #[], "", "", [], true, .tree [], 0, 0⟩
    (mixedDivisors ≠ [] ∧ 0 ∉ mixedDivisors ∧ mixedDivisors.reverse.Perm mixedDivisors) ∧
    Primitive.divide.run eval call rootFrame (.int (-100) :: mixedDivisors.map .int) s = .value (.int 2) s ∧
    Primitive.divide.run eval call rootFrame [.int (-100), .int (-42)] s = .value (.int 2) s ∧
    Primitive.divide.run eval call rootFrame (.int (-100) :: mixedDivisors.reverse.map .int) s = .value (.int 2) s ∧
    Primitive.divide.run eval call rootFrame (.int (-100) :: (mixedDivisors ++ [0]).map .int) s =
      .fault .divisionByZero s := by
  intro eval call s
  have hne : mixedDivisors ≠ [] := List.cons_ne_nil _ _
  have hzero : 0 ∉ mixedDivisors := by decide
  have hvalue : truncate (((-100 : ℤ) : ℚ) / (mixedDivisors.prod : ℤ)) = 2 := by
    rw [truncate_intCast_div]
    rfl
  obtain ⟨-, -, hquotient, ⟨product, -, rfl, hproduct⟩, horder⟩ := divide_truncates eval call rootFrame s (-100) hne
  obtain ⟨hfault, -⟩ := divide_truncates eval call rootFrame s (-100) (List.concat_ne_nil 0 mixedDivisors)
  rw [hvalue] at hquotient
  have hrun := hquotient hzero
  refine ⟨⟨hne, hzero, List.reverse_perm _⟩, hrun, hproduct.trans hrun,
    (horder _ (List.reverse_perm _)).trans hrun, ?_⟩
  exact hfault.2 (by decide)

end SmallLisp
