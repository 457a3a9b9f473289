import KLang.Builtin.Math
import KLang.Proofs.Builtin.Dispatch
import KLang.Proofs.Number.Remainder
import KLang.Value.Operation

/-!
# Remainders and whole numbers

The operator `%` gives what truncated division leaves of the dividend, without rounding it. So it is
the remainder of integers if both operands are whole, and the remainder by `1` is zero for the whole
numbers and for no others. The builtin function that recognizes whole numbers does not divide, and
agrees with that.

* `abs_sub_truncation_lt`: what truncation cuts off is smaller than `1`.
* `truncation_div`: the truncated quotient of integers is that of truncating division.
* `Number.IsWhole`: the whole numbers, among all that a program can have.
* `Number.eq_zero_rem_one`: the remainder by `1` is zero for these.
* `remainders_are_exact`: the operator, and how it agrees with the builtin function.
-/

namespace KLang

/-! ## Truncated quotients -/

theorem abs_sub_truncation_lt (q : ℚ) : |q - truncation q| < 1 := by
  rw [abs_lt]
  unfold truncation
  split
  · have hle := Int.le_ceil q
    have hlt := Int.ceil_lt_add_one q
    constructor <;> linarith
  · have hle := Int.floor_le q
    have hlt := Int.lt_floor_add_one q
    constructor <;> linarith

theorem truncation_div (i j : ℤ) : truncation (i / j) = i.tdiv j := by
  have hnat (a b : ℕ) : truncation (((a : ℤ) : ℚ) / ((b : ℤ) : ℚ)) = (a : ℤ).tdiv b := by
    rw [Int.cast_natCast, Int.cast_natCast, truncation_of_nonneg (by positivity), floor_natCast_div]
    exact Int.ofNat_tdiv a b
  obtain ⟨a, rfl | rfl⟩ := i.eq_nat_or_neg
  · obtain ⟨b, rfl | rfl⟩ := j.eq_nat_or_neg
    · exact hnat a b
    · rw [Int.cast_neg, div_neg, truncation_neg, hnat, Int.tdiv_neg]
  · obtain ⟨b, rfl | rfl⟩ := j.eq_nat_or_neg
    · rw [Int.cast_neg, neg_div, truncation_neg, hnat, Int.neg_tdiv]
    · rw [Int.cast_neg, Int.cast_neg, neg_div_neg_eq, hnat, Int.neg_tdiv, Int.tdiv_neg, neg_neg]

/-! ## The operator -/

namespace Number

variable {x y : Number}

theorem apply_rem (hy : y.isZero = false) :
    BinaryOperator.apply .rem (.number x) (.number y) = .ok (.number (x % y)) := by
  rw [BinaryOperator.apply_numbers, BinaryOperator.onNumbers, hy]
  rfl

theorem abs_rem_lt (hx : x.isFinite = true) (hy : y.isFinite = true) (hzero : y.toRat ≠ 0) :
    |(x % y).toRat| < |y.toRat| := by
  have hfraction : (x % y).toRat =
      y.toRat * (x.toRat / y.toRat - truncation (x.toRat / y.toRat)) := by
    rw [(rem_spec hx hy hzero).2.2, mul_sub, mul_div_cancel₀ _ hzero]
  rw [hfraction, abs_mul]
  exact mul_lt_of_lt_one_right (abs_pos.mpr hzero) (abs_sub_truncation_lt _)

theorem rem_of_intCast (hx : x.isFinite = true) (hy : y.isFinite = true) (hzero : y.toRat ≠ 0)
    {i j : ℤ} (hi : x.toRat = i) (hj : y.toRat = j) : (x % y).toRat = (i.tmod j : ℤ) := by
  rw [(rem_spec hx hy hzero).2.2, hi, hj, truncation_div, Int.tmod_def]
  push_cast
  rfl

/-! ## Whole numbers -/

/-- The number is finite and a whole number. -/
def IsWhole (x : Number) : Prop := x.isFinite = true ∧ ∃ k : ℤ, x.toRat = k

theorem isInteger_iff_isWhole : x.isInteger = true ↔ x.IsWhole := by
  constructor
  · intro h
    have hx := isFinite_of_isInteger h
    exact ⟨hx, (isInteger_iff hx).mp h⟩
  · rintro ⟨hx, h⟩
    exact (isInteger_iff hx).mpr h

/-- The remainder by `1` of a number is zero if the number is whole, and is not a number if the number
is not finite. -/
theorem eq_zero_rem_one (x : Number) : (x % 1).eq 0 = x.isInteger := by
  cases hx : x.isFinite with
  | false =>
    cases x with
    | nan | infinite => rfl
    | finite => cases hx
  | true =>
    obtain ⟨hfinite, hrem⟩ := rem_one_spec hx
    have hzero : (x % 1).eq 0 = true ↔ (x % 1).toRat = (0 : ℕ) :=
      eq_ofNat_iff hfinite (by decide)
    rw [Bool.eq_iff_iff, hzero, isInteger_iff hx, hrem, Nat.cast_zero, sub_eq_zero]
    constructor
    · intro h
      exact ⟨_, h⟩
    · rintro ⟨k, hk⟩
      rw [hk, truncation_intCast]

end Number

/-- **Remainders are exact, and tell which numbers are whole.** The remainder of a finite number by a
finite number other than zero is what truncated division leaves of it, is smaller than the divisor and
has the sign of the dividend, also if it is zero; for whole numbers it is the remainder of truncating
division. Whether the remainder of a number by `1` equals zero is what the builtin function says of
it, for every number: it is `1` if the number is whole, and `0` otherwise. -/
theorem remainders_are_exact (world : World) (l : Option Location) (x : Number) :
    (∀ y : Number, x.isFinite = true → y.isFinite = true → y.toRat ≠ 0 →
      ∃ r, BinaryOperator.apply .rem (.number x) (.number y) = .ok (.number r) ∧
        r.isFinite = true ∧ r.negative = x.negative ∧
        r.toRat = x.toRat - y.toRat * truncation (x.toRat / y.toRat) ∧
        |r.toRat| < |y.toRat| ∧
        ∀ i j : ℤ, x.toRat = i → y.toRat = j → r.toRat = (i.tmod j : ℤ)) ∧
    ∃ b r t, Library.math.builtins.get? "is_integer" = some b ∧
      callBuiltin world l b [.number x] = pure (.number t) ∧
      BinaryOperator.apply .rem (.number x) (.number 1) = .ok (.number r) ∧
      BinaryOperator.apply (.compare .eq) (.number r) (.number 0) = .ok (.number t) ∧
      (t = 1 ↔ x.IsWhole) ∧ (t = 0 ↔ ¬x.IsWhole) := by
  constructor
  · intro y hx hy hzero
    have happly := Number.apply_rem (x := x)
      (Bool.eq_false_of_not_eq_true ((Number.isZero_iff hy).not.mpr hzero))
    obtain ⟨hfinite, hsign, hvalue⟩ := Number.rem_spec hx hy hzero
    exact ⟨_, happly, hfinite, hsign, hvalue, Number.abs_rem_lt hx hy hzero,
      fun i j => Number.rem_of_intCast hx hy hzero⟩
  · have hcompare : BinaryOperator.apply (.compare .eq) (.number (x % 1)) (.number 0) =
        .ok (.number (.ofBool x.isInteger)) := by
      rw [← Number.eq_zero_rem_one x]
      rfl
    refine ⟨_, x % 1, _, rfl, callBuiltin_property world l "is_integer" Number.isInteger x,
      Number.apply_rem rfl, hcompare, ?_⟩
    rw [← Number.isInteger_iff_isWhole]
    cases x.isInteger <;> decide

theorem remainders_are_exact_large :
    let x : Number := .finite true (2 ^ (52 : ℕ)) 148 (by decide)
    let three : Number := .finite false (3 * 2 ^ (51 : ℕ)) (-51) (by decide)
    x.isFinite = true ∧ three.isFinite = true ∧ three.toRat ≠ 0 ∧
      ∃ r, BinaryOperator.apply .rem (.number x) (.number three) = .ok (.number r) ∧
        r.toRat = -1 := by
  intro x three
  have hx : x.toRat = (-2 ^ 200 : ℤ) := by norm_num [x, Number.toRat]
  have hthree : three.toRat = (3 : ℤ) := by norm_num [three, Number.toRat]
  have hzero : three.toRat ≠ 0 := by rw [hthree]; norm_num
  obtain ⟨r, happly, -, -, -, -, hmod⟩ :=
    (remainders_are_exact default none x).1 three rfl rfl hzero
  refine ⟨rfl, rfl, hzero, r, happly, ?_⟩
  rw [hmod _ _ hx hthree, show (-2 ^ 200 : ℤ).tmod 3 = -1 by decide +kernel]
  norm_num

end KLang
