/-
Comparison against the exact values of numbers. Every number other than NaN has its exact value on the rational
line, closed by the two infinities, and the places at which numbers are compared lie in the order of those values.
So each comparison decides a transitive relation, and to test neighbours is to test all pairs. Main statement:
`comparisons_exact`.
-/
import Mathlib.Algebra.Order.Field.Rat
import Mathlib.Algebra.Order.Field.Basic
import Mathlib.Data.List.Chain
import Mathlib.Order.WithBot
import SmallLisp.Proofs.Value.Equality

namespace SmallLisp

/-! ## Exact values -/

/-- The rational line, closed by an infinity at each end. -/
abbrev ExtendedRat := WithBot (WithTop ℚ)

def ExtendedRat.ofRat (r : ℚ) : ExtendedRat := ↑(r : WithTop ℚ)

/-- What a double stands for. The two zeros stand for the same, NaN for nothing. -/
def Binary64.exact? : Binary64 → Option ExtendedRat
  | .nan => none
  | .infinite negative => some (if negative then ⊥ else ⊤)
  | .finite negative mantissa scale _ =>
    some (.ofRat ((if negative then -1 else 1) * mantissa * 2 ^ ((scale : ℤ) - 1074)))

def Number.exact? : Number → Option ExtendedRat
  | .int n => some (.ofRat n)
  | .float x => x.exact?

theorem Number.exact?_of_ne_nan {n : Number} (h : n ≠ .float .nan) : ∃ x, n.exact? = some x := by
  rcases n with n | _ | _ | _
  · exact ⟨_, rfl⟩
  · exact absurd rfl h
  · exact ⟨_, rfl⟩
  · exact ⟨_, rfl⟩

namespace ExtendedRat

theorem ofRat_strictMono : StrictMono ofRat := WithBot.coe_strictMono.comp WithTop.coe_strictMono

theorem bot_lt_ofRat (r : ℚ) : (⊥ : ExtendedRat) < ofRat r := WithBot.bot_lt_coe _

theorem ofRat_lt_top (r : ℚ) : ofRat r < (⊤ : ExtendedRat) := WithBot.coe_lt_coe.2 (WithTop.coe_lt_top r)

end ExtendedRat

/-! ## Places -/

namespace Binary64

open ExtendedRat (ofRat)

theorem unitsPerOne_cast : (unitsPerOne : ℚ) = 2 ^ 1074 := by
  unfold unitsPerOne
  -- the power is far too large to be computed
  generalize 1074 = exponent
  exact Nat.cast_pow 2 exponent

/-- The places at which exact values lie. -/
inductive Position.Marks : Position → ExtendedRat → Prop where
  | below : Marks ⟨-1, 0⟩ ⊥
  | inside (units : ℤ) : Marks ⟨0, units⟩ (ofRat (units / unitsPerOne))
  | above : Marks ⟨1, 0⟩ ⊤

theorem Position.Marks.cmp_inside (m n : ℤ) :
    cmp (ofRat (m / unitsPerOne)) (ofRat (n / unitsPerOne)) = Ord.compare m n := by
  have hunit : (0 : ℚ) < unitsPerOne := Nat.cast_pos.2 unitsPerOne_pos
  have hless : StrictMono fun units : ℤ => (units / unitsPerOne : ℚ) := fun m n h =>
    (div_lt_div_iff_of_pos_right hunit).2 (Int.cast_lt.2 h)
  rw [ExtendedRat.ofRat_strictMono.cmp_map_eq, hless.cmp_map_eq, cmp_eq_compare]

/-- Places are in the order of the values. -/
theorem Position.Marks.compare_eq {p q : Position} {x y : ExtendedRat} (hp : p.Marks x) (hq : q.Marks y) :
    p.compare q = cmp x y := by
  cases hp with
  | below =>
    cases hq with
    | below => exact (cmp_self_eq_eq _).symm
    | inside units => exact ((cmp_eq_lt_iff _ _).2 (ExtendedRat.bot_lt_ofRat _)).symm
    | above => exact ((cmp_eq_lt_iff _ _).2 bot_lt_top).symm
  | inside units =>
    cases hq with
    | below => exact ((cmp_eq_gt_iff _ _).2 (ExtendedRat.bot_lt_ofRat _)).symm
    | inside units' =>
      rw [cmp_inside]
      rfl
    | above => exact ((cmp_eq_lt_iff _ _).2 (ExtendedRat.ofRat_lt_top _)).symm
  | above =>
    cases hq with
    | below => exact ((cmp_eq_gt_iff _ _).2 bot_lt_top).symm
    | inside units => exact ((cmp_eq_gt_iff _ _).2 (ExtendedRat.ofRat_lt_top _)).symm
    | above => exact (cmp_self_eq_eq _).symm

theorem marks_position {d : Binary64} {x : ExtendedRat} (h : d.exact? = some x) :
    ∃ p, d.position? = some p ∧ p.Marks x := by
  cases d with
  | nan => cases h
  | infinite negative =>
    cases negative <;> cases h
    · exact ⟨_, rfl, .above⟩
    · exact ⟨_, rfl, .below⟩
  | finite negative mantissa scale canonical =>
    cases h
    refine ⟨_, rfl, ?_⟩
    have hvalue : (if negative then -1 else 1) * (mantissa : ℚ) * 2 ^ ((scale : ℤ) - 1074) =
        (units (.finite negative mantissa scale canonical) : ℚ) / unitsPerOne := by
      rw [unitsPerOne_cast, zpow_sub₀ two_ne_zero, zpow_natCast]
      cases negative <;> simp [units, isNegative, magnitude, Nat.shiftLeft_eq, mul_div_assoc, neg_div]
    rw [hvalue]
    exact .inside _

end Binary64

namespace Number

variable {a b : Number} {x y : ExtendedRat}

theorem marks_position (h : a.exact? = some x) : ∃ p, a.position? = some p ∧ p.Marks x := by
  cases a with
  | float d => exact Binary64.marks_position h
  | int n =>
    cases h
    refine ⟨_, rfl, ?_⟩
    have hunit : (Binary64.unitsPerOne : ℚ) ≠ 0 := Nat.cast_ne_zero.2 Binary64.unitsPerOne_pos.ne'
    have hvalue : (n : ℚ) = ((n * Binary64.unitsPerOne : ℤ) : ℚ) / Binary64.unitsPerOne := by
      rw [Int.cast_mul, Int.cast_natCast, mul_div_cancel_right₀ _ hunit]
    rw [hvalue]
    exact .inside _

/-- The order of two numbers is that of their exact values. -/
theorem order?_eq_cmp (ha : a.exact? = some x) (hb : b.exact? = some y) : a.order? b = some (cmp x y) := by
  obtain ⟨p, hp, hmark⟩ := marks_position ha
  obtain ⟨q, hq, hmark'⟩ := marks_position hb
  have hplaces : (do
      let p ← a.position?
      let q ← b.position?
      return p.compare q : Option Ordering) = some (cmp x y) := by
    rw [hp, hq, ← hmark.compare_eq hmark']
    rfl
  cases a with
  | float d => exact hplaces
  | int m =>
    cases b with
    | float d => exact hplaces
    | int n =>
      -- two integers are compared without their places
      cases ha
      cases hb
      rw [order?, ExtendedRat.ofRat_strictMono.cmp_map_eq, Int.cast_strictMono.cmp_map_eq, cmp_eq_compare]

theorem order?_trichotomy (ha : a.exact? = some x) (hb : b.exact? = some y) :
    a.order? b = some .lt ∧ x < y ∨ a.order? b = some .eq ∧ x = y ∨ a.order? b = some .gt ∧ y < x := by
  rw [order?_eq_cmp ha hb]
  rcases lt_trichotomy x y with h | h | h
  · exact .inl ⟨congrArg some ((cmp_eq_lt_iff _ _).2 h), h⟩
  · exact .inr (.inl ⟨congrArg some ((cmp_eq_eq_iff _ _).2 h), h⟩)
  · exact .inr (.inr ⟨congrArg some ((cmp_eq_gt_iff _ _).2 h), h⟩)

theorem order?_eq_none (h : a.exact? = none ∨ b.exact? = none) : a.order? b = none := by
  have hnan : ∀ {n : Number}, n.exact? = none → n = .float .nan := by
    intro n hn
    by_contra hne
    obtain ⟨x, hx⟩ := exact?_of_ne_nan hne
    rw [hx] at hn
    cases hn
  rcases h with h | h
  · rw [hnan h]
    rfl
  · rw [hnan h]
    cases a with
    | int m => rfl
    | float d => cases d <;> rfl

theorem equal_toValue (cells : Array Value) (a b : Number) :
    a.toValue.equal cells b.toValue = (a.order? b == some .eq) := by
  cases a with
  | float d => cases b <;> rfl
  | int m =>
    cases b with
    | float d => rfl
    | int n =>
      rw [Bool.eq_iff_iff]
      simp [toValue, Value.equal, Value.equalWith, order?]

end Number

/-! ## Relations -/

namespace Comparison

/-- The relation between exact values that a comparison asks about. -/
def relation : Comparison → ExtendedRat → ExtendedRat → Prop
  | .less => (· < ·)
  | .lessEq => (· ≤ ·)
  | .greater => (· > ·)
  | .greaterEq => (· ≥ ·)

/-- The exact values of two numbers are related. Nothing is related to NaN. -/
def Relates (c : Comparison) (a b : Number) : Prop := ∃ x y, a.exact? = some x ∧ b.exact? = some y ∧ c.relation x y

theorem relation_trans (c : Comparison) {x y z : ExtendedRat} (h : c.relation x y) (h' : c.relation y z) :
    c.relation x z := by
  cases c with
  | less => exact lt_trans h h'
  | lessEq => exact le_trans h h'
  | greater => exact lt_trans h' h
  | greaterEq => exact le_trans h' h

theorem Relates.trans {c : Comparison} {k m n : Number} (h : c.Relates k m) (h' : c.Relates m n) : c.Relates k n := by
  obtain ⟨x, y, hx, hy, hxy⟩ := h
  obtain ⟨y', z, hy', hz, hyz⟩ := h'
  obtain rfl : y = y' := Option.some.inj (hy.symm.trans hy')
  exact ⟨x, z, hx, hz, c.relation_trans hxy hyz⟩

instance (c : Comparison) : Trans c.Relates c.Relates c.Relates := ⟨Relates.trans⟩

theorem holds_iff_relation (c : Comparison) {a b : Number} {x y : ExtendedRat} (ha : a.exact? = some x)
    (hb : b.exact? = some y) : c.holds a b = true ↔ c.relation x y := by
  rw [holds]
  rcases Number.order?_trichotomy ha hb with ⟨horder, h⟩ | ⟨horder, rfl⟩ | ⟨horder, h⟩
  · rw [horder]
    cases c <;> simp [relation, h, h.le, h.not_ge, h.not_gt]
  · rw [horder]
    cases c <;> simp [relation]
  · rw [horder]
    cases c <;> simp [relation, h, h.le, h.not_ge, h.not_gt]

theorem holds_iff (c : Comparison) (a b : Number) : c.holds a b = true ↔ c.Relates a b := by
  rcases ha : a.exact? with _ | x
  · rw [holds, Number.order?_eq_none (.inl ha)]
    simp [Relates, ha]
  rcases hb : b.exact? with _ | y
  · rw [holds, Number.order?_eq_none (.inr hb)]
    simp [Relates, hb]
  rw [c.holds_iff_relation ha hb]
  simp [Relates, ha, hb]

end Comparison

theorem holdsBetweenNeighbours_iff_isChain (test : Number → Number → Bool) (ns : List Number) :
    Arithmetic.holdsBetweenNeighbours test ns = true ↔ ns.IsChain fun a b => test a b = true := by
  fun_induction Arithmetic.holdsBetweenNeighbours test ns with
  | case1 a b ns ih => rw [Bool.and_eq_true, ih, List.isChain_cons_cons]
  | case2 ns hshort =>
    rcases ns with _ | ⟨a, _ | ⟨b, ns⟩⟩
    · simp
    · simp
    · exact absurd rfl (hshort a b ns)

/-- A relation that holds between neighbours holds between all, as it is transitive. -/
theorem holdsBetweenNeighbours_iff (c : Comparison) (ns : List Number) :
    Arithmetic.holdsBetweenNeighbours c.holds ns = true ↔ ns.Pairwise c.Relates := by
  simp only [holdsBetweenNeighbours_iff_isChain, c.holds_iff]
  exact List.isChain_iff_pairwise

/-! ## The primitives -/

section Runs

variable (eval : Evaluator) (call : Caller) (frame : FrameId) (s : State)

theorem numbers_toValue (name : String) (ns : List Number) : Run.numbers name (ns.map Number.toValue) = pure ns := by
  induction ns with
  | nil => rfl
  | cons n ns ih =>
    have hnumber : n.toValue.number? = some n := by cases n <;> rfl
    rw [List.map_cons, Run.numbers, hnumber]
    dsimp only
    rw [ih]
    rfl

/-- A comparison of numbers asks about their neighbours, and leaves the state as it is. -/
theorem compare_run (c : Comparison) {ns : List Number} (hne : ns ≠ []) :
    (Primitive.compare c).run eval call frame (ns.map Number.toValue) s =
      .value (.bool (Arithmetic.holdsBetweenNeighbours c.holds ns)) s := by
  cases ns with
  | nil => exact absurd rfl hne
  | cons n ns =>
    show (Run.numbers c.name ((n :: ns).map Number.toValue) >>= fun ns =>
      pure (Value.bool (Arithmetic.holdsBetweenNeighbours c.holds ns))) s = _
    rw [numbers_toValue]
    rfl

theorem compare_pair_run (c : Comparison) (a b : Number) :
    (Primitive.compare c).run eval call frame [a.toValue, b.toValue] s = .value (.bool (c.holds a b)) s := by
  have hpair : Arithmetic.holdsBetweenNeighbours c.holds [a, b] = c.holds a b := Bool.and_true _
  rw [← hpair]
  exact compare_run eval call frame s c (List.cons_ne_nil a [b])

theorem equals_pair_run (a b : Number) :
    Primitive.equals.run eval call frame [a.toValue, b.toValue] s = .value (.bool (a.order? b == some .eq)) s := by
  show Outcome.value (Value.bool ([b.toValue].all fun other => a.toValue.equal s.cells other)) s = _
  rw [List.all_cons, List.all_nil, Bool.and_true, Number.equal_toValue]

end Runs

/-- Numbers are compared by their exact values, whatever their sizes and however integers and doubles are mixed. Of
any two other than NaN, exactly one of `<`, `=` and `>` is true, and `<=` is what `>` is not. Of a row of numbers, a
comparison tests neighbours only, and is true if and only if it is true of every pair of an earlier and a later one. -/
theorem comparisons_exact (eval : Evaluator) (call : Caller) (frame : FrameId) (s : State) :
    (∀ a b : Number, a ≠ .float .nan → b ≠ .float .nan → ∃ x y less equal greater,
      a.exact? = some x ∧ b.exact? = some y ∧
      (Primitive.compare .less).run eval call frame [a.toValue, b.toValue] s = .value (.bool less) s ∧
      Primitive.equals.run eval call frame [a.toValue, b.toValue] s = .value (.bool equal) s ∧
      (Primitive.compare .greater).run eval call frame [a.toValue, b.toValue] s = .value (.bool greater) s ∧
      (Primitive.compare .lessEq).run eval call frame [a.toValue, b.toValue] s = .value (.bool !greater) s ∧
      (Primitive.compare .greaterEq).run eval call frame [a.toValue, b.toValue] s = .value (.bool !less) s ∧
      (less = true ↔ x < y) ∧ (equal = true ↔ x = y) ∧ (greater = true ↔ y < x) ∧
      [less, equal, greater].count true = 1) ∧
    ∀ (c : Comparison) (ns : List Number), ns ≠ [] → ∃ holds,
      (Primitive.compare c).run eval call frame (ns.map Number.toValue) s = .value (.bool holds) s ∧
      (holds = true ↔ ns.Pairwise fun a b =>
        (Primitive.compare c).run eval call frame [a.toValue, b.toValue] s = .value (.bool true) s) ∧
      (holds = true ↔ ns.Pairwise c.Relates) := by
  constructor
  · intro a b ha hb
    obtain ⟨x, hx⟩ := Number.exact?_of_ne_nan ha
    obtain ⟨y, hy⟩ := Number.exact?_of_ne_nan hb
    refine ⟨x, y, _, _, _, hx, hy, compare_pair_run .., equals_pair_run .., compare_pair_run .., ?_⟩
    rw [compare_pair_run, compare_pair_run]
    simp only [Comparison.holds]
    rcases Number.order?_trichotomy hx hy with ⟨horder, h⟩ | ⟨horder, rfl⟩ | ⟨horder, h⟩
    · rw [horder]
      exact ⟨rfl, rfl, by simp [h, h.ne, h.not_gt]⟩
    · rw [horder]
      exact ⟨rfl, rfl, by simp⟩
    · rw [horder]
      exact ⟨rfl, rfl, by simp [h, h.ne', h.not_gt]⟩
  · intro c ns hne
    refine ⟨_, compare_run eval call frame s c hne, ?_, holdsBetweenNeighbours_iff c ns⟩
    simp only [holdsBetweenNeighbours_iff, compare_pair_run, c.holds_iff, Outcome.value.injEq, Value.bool.injEq,
      and_true]

/-- An infinity, a double, the integer that is next to it and no double, one that is beyond all doubles, and the other
infinity. -/
def risingNumbers : List Number :=
  [.float (.infinite true), .float (Binary64.ofInt (2 ^ 53)), .int (2 ^ 53 + 1), .int (10 ^ 400),
    .float (.infinite false)]

theorem comparisons_exact_risingNumbers : (∀ n ∈ risingNumbers, n ≠ .float .nan) ∧
    Primitive.equals.run (fun _ _ => Run.halt .steps) (fun _ _ _ => Run.halt .steps) rootFrame
      [risingNumbers[1].toValue, risingNumbers[2].toValue] Value.twoCells = .value (.bool false) Value.twoCells ∧
    (Primitive.compare .less).run (fun _ _ => Run.halt .steps) (fun _ _ _ => Run.halt .steps) rootFrame
      (risingNumbers.map Number.toValue) Value.twoCells = .value (.bool true) Value.twoCells ∧
    risingNumbers.Pairwise Comparison.less.Relates := by
  have hne : risingNumbers ≠ [] := List.cons_ne_nil _ _
  have hnumbers : ∀ n ∈ risingNumbers, n ≠ .float .nan := by decide +kernel
  have hless : Comparison.less.holds risingNumbers[1] risingNumbers[2] = true := by decide +kernel
  have hrising : Arithmetic.holdsBetweenNeighbours Comparison.less.holds risingNumbers = true := by decide +kernel
  obtain ⟨hpairs, hrows⟩ := comparisons_exact (fun _ _ => Run.halt .steps) (fun _ _ _ => Run.halt .steps)
    rootFrame Value.twoCells
  obtain ⟨-, -, less, equal, greater, -, -, hrun, hequals, -, -, -, -, -, -, hone⟩ := hpairs risingNumbers[1]
    risingNumbers[2] (hnumbers _ (List.getElem_mem _)) (hnumbers _ (List.getElem_mem _))
  obtain ⟨holds, hrow, -, hall⟩ := hrows .less risingNumbers hne
  rw [compare_pair_run, hless] at hrun
  cases hrun
  rw [compare_run _ _ _ _ _ hne, hrising] at hrow
  cases hrow
  refine ⟨hnumbers, ?_, ?_, hall.1 rfl⟩
  · rw [hequals]
    cases equal
    · rfl
    · cases greater <;> cases hone
  · rw [compare_run _ _ _ _ _ hne, hrising]

end SmallLisp
