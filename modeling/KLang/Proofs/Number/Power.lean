import KLang.Proofs.Number.Remainder
import KLang.Value.Operation
import Mathlib.Analysis.SpecialFunctions.Pow.Real

/-!
# Powers that overflow

A power of finite numbers that is too large for the format becomes an infinity, and its sign is found
from the operands alone. It is the sign of the real power, except for a negative base with a negative
odd exponent: no remainder of a negative exponent is `1`, so the infinity is positive there although
the real power is negative.

* `Number.pow_overflows`: overflowing powers are powers of real numbers.
* `real_power_neg_iff`: where the real power is negative.
* `power_overflow_sign`: the sign of the infinity.
-/

namespace KLang

namespace Number

variable {x y : Number}

theorem lt_zero_iff (hx : x.isFinite = true) : x.lt 0 = true ↔ x.toRat < 0 := by
  obtain ⟨hzero, hvalue⟩ := toRat_ofNat (n := 0) (by decide)
  exact (lt_iff hx hzero).trans (by rw [hvalue, Nat.cast_zero])

/-- A power that overflows is the power of a positive number, or one with a whole exponent. -/
theorem pow_overflows (hx : x.isFinite = true) (hy : y.isFinite = true) (hzero : x.toRat ≠ 0)
    (h : (x.pow y).isInfinite = true) : 0 < x.toRat ∨ ∃ k : ℤ, y.toRat = k := by
  cases x with
  | nan | infinite => cases hx
  | finite s m e hm =>
    cases y with
    | nan | infinite => cases hy
    | finite t n f hn =>
      by_contra hnot
      rw [not_or, ← isInteger_iff hy] at hnot
      have hs : s = true := by
        cases s with
        | true => rfl
        | false =>
          refine absurd (lt_of_le_of_ne ?_ hzero.symm) hnot.1
          simp only [toRat, Bool.false_eq_true, if_false]
          positivity
      have hm0 : m ≠ 0 := by
        rintro rfl
        exact hzero (by simp [toRat])
      unfold pow at h
      split at h
      · cases h
      · simp [hm0, hs, hnot.2, isInfinite] at h

end Number

/-- A real power of a number is negative exactly for a negative base with an odd exponent. -/
theorem real_power_neg_iff {p q : ℚ} (hp : p ≠ 0) (h : 0 < p ∨ ∃ k : ℤ, q = k) :
    ((p : ℝ) ^ (q : ℝ)) < 0 ↔ p < 0 ∧ ∃ k : ℤ, Odd k ∧ q = k := by
  rcases lt_or_gt_of_ne hp with hneg | hpos
  · obtain ⟨k, rfl⟩ := h.resolve_left hneg.not_gt
    have hneg' : (p : ℝ) < 0 := by exact_mod_cast hneg
    rw [Rat.cast_intCast, Real.rpow_intCast]
    rcases Int.even_or_odd k with heven | hodd
    · refine iff_of_false (heven.zpow_nonneg _).not_gt ?_
      rintro ⟨-, k', hodd', heq⟩
      rw [Int.cast_inj] at heq
      exact Int.not_even_iff_odd.mpr hodd' (heq ▸ heven)
    · exact iff_of_true (hodd.zpow_neg_iff.mpr hneg') ⟨hneg, k, hodd, rfl⟩
  · have hpos' : (0 : ℝ) < p := by exact_mod_cast hpos
    exact iff_of_false (Real.rpow_pos_of_pos hpos' _).not_gt fun h => absurd h.1 hpos.not_gt

theorem odd_iff_natCast {q : ℚ} : (∃ k : ℤ, Odd k ∧ q = k) ↔
    (∃ k : ℕ, q = 2 * k + 1) ∨ ∃ k : ℕ, q = -(2 * k + 1) := by
  constructor
  · rintro ⟨_, ⟨j, rfl⟩, rfl⟩
    rcases lt_or_ge j 0 with hj | hj
    · obtain ⟨k, hk⟩ := Int.eq_ofNat_of_zero_le (show 0 ≤ -j - 1 by omega)
      obtain rfl : j = -k - 1 := by omega
      exact .inr ⟨k, by push_cast; ring⟩
    · obtain ⟨k, rfl⟩ := Int.eq_ofNat_of_zero_le hj
      exact .inl ⟨k, by push_cast; ring⟩
  · rintro (⟨k, rfl⟩ | ⟨k, rfl⟩)
    · exact ⟨2 * k + 1, ⟨k, rfl⟩, by push_cast; ring⟩
    · exact ⟨-(2 * k + 1), ⟨-k - 1, by ring⟩, by push_cast; ring⟩

/-- **Which infinity a power that overflows becomes.** The power of a finite number other than zero and
a finite exponent is a real number if it overflows. It becomes negative infinity exactly if the base
is negative and the exponent an odd number above zero. So the infinity has the sign of the real
power exactly if the base is not negative or the exponent is not an odd number below zero. -/
theorem power_overflow_sign {x y : Number} (hx : x.isFinite = true) (hy : y.isFinite = true)
    (hzero : x.toRat ≠ 0) (h : (x.pow y).isInfinite = true) :
    (0 < x.toRat ∨ ∃ k : ℤ, y.toRat = k) ∧
    ∃ s, BinaryOperator.apply .pow (.number x) (.number y) = .ok (.number (.infinite s)) ∧
      (s = true ↔ x.toRat < 0 ∧ ∃ k : ℕ, y.toRat = 2 * k + 1) ∧
      ((s = true ↔ ((x.toRat : ℝ) ^ (y.toRat : ℝ)) < 0) ↔
        ¬(x.toRat < 0 ∧ ∃ k : ℕ, y.toRat = -(2 * k + 1))) := by
  have hreal := Number.pow_overflows hx hy hzero h
  have hx0 : x.isZero = false := Bool.eq_false_of_not_eq_true ((Number.isZero_iff hx).not.mpr hzero)
  have hsign : (x.lt 0 && (y % 2).eq 1) = true ↔ x.toRat < 0 ∧ ∃ k : ℕ, y.toRat = 2 * k + 1 := by
    rw [Bool.and_eq_true, Number.lt_zero_iff hx, Number.rem_two_eq_one_iff hy]
  refine ⟨hreal, x.lt 0 && (y % 2).eq 1, ?_, hsign, ?_⟩
  · rw [BinaryOperator.apply]
    · simp [Value.number?, BinaryOperator.onNumbers, Number.power, hx0, h, hx, hy, Functor.map,
        Except.map]
    · nofun
  · rw [hsign, real_power_neg_iff hzero hreal, odd_iff_natCast]
    -- an odd exponent lies on one side of zero only
    have hside : (∃ k : ℕ, y.toRat = 2 * k + 1) → ¬∃ k : ℕ, y.toRat = -(2 * k + 1) := by
      rintro ⟨k, hk⟩ ⟨j, hj⟩
      have hpos : (0 : ℚ) < 2 * k + 1 + (2 * j + 1) := by positivity
      linarith
    constructor
    · rintro hiff ⟨hneg, hbelow⟩
      exact hside (hiff.mpr ⟨hneg, .inr hbelow⟩).2 hbelow
    · intro hnot
      refine ⟨fun ⟨hneg, habove⟩ => ⟨hneg, .inl habove⟩, fun ⟨hneg, hodd⟩ => ⟨hneg, ?_⟩⟩
      exact hodd.resolve_right fun hbelow => hnot ⟨hneg, hbelow⟩

theorem power_overflow_sign_cube :
    let x : Number := .finite true (2 ^ (52 : ℕ)) 948 (by decide)
    let three : Number := .finite false (3 * 2 ^ (51 : ℕ)) (-51) (by decide)
    x.isFinite = true ∧ three.isFinite = true ∧ x.toRat ≠ 0 ∧ (x.pow three).isInfinite = true ∧
      BinaryOperator.apply .pow (.number x) (.number three) = .ok (.number (.infinite true)) := by
  intro x three
  have hneg : x.toRat < 0 := by
    simp only [x, Number.toRat, if_true, neg_lt_zero]
    positivity
  have hthree : three.toRat = 2 * (1 : ℕ) + 1 := by norm_num [three, Number.toRat]
  have hoverflow : (x.pow three).isInfinite = true := by decide +kernel
  obtain ⟨-, s, happly, hs, -⟩ :=
    power_overflow_sign (x := x) (y := three) rfl rfl hneg.ne hoverflow
  rw [hs.mpr ⟨hneg, 1, hthree⟩] at happly
  exact ⟨rfl, rfl, hneg.ne, hoverflow, happly⟩

/-- The reciprocal of the negative number next to zero overflows to positive infinity. -/
theorem power_overflow_reciprocal :
    let x : Number := .finite true 1 (-1074) (by decide)
    let minusOne : Number := .finite true (2 ^ (52 : ℕ)) (-52) (by decide)
    (x.pow minusOne).isInfinite = true ∧
      BinaryOperator.apply .pow (.number x) (.number minusOne) = .ok (.number (.infinite false)) ∧
      (x.toRat : ℝ) ^ (minusOne.toRat : ℝ) < 0 := by
  intro x minusOne
  have hneg : x.toRat < 0 := by
    simp only [x, Number.toRat, if_true, neg_lt_zero]
    positivity
  have hminusOne : minusOne.toRat = (-1 : ℤ) := by norm_num [minusOne, Number.toRat]
  refine ⟨by decide +kernel, by decide +kernel, ?_⟩
  exact (real_power_neg_iff hneg.ne (.inr ⟨-1, hminusOne⟩)).mpr ⟨hneg, -1, by decide, hminusOne⟩

end KLang
