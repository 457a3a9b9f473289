import KLang.Builtin.Math
import KLang.Proofs.Builtin.Dispatch
import KLang.Proofs.Number.Integers
import KLang.Proofs.Number.Remainder
import KLang.Proofs.Number.Sum

/-!
# Rounding to the nearest integer

The builtin function compares the distances of its argument to the integers below and above it. They
are differences of numbers, and one of them may have been rounded: between `0` and `1` the distance
to `1`, between `-1` and `0` that to `-1`. The other one is what a remainder by `1` leaves, and is
exact. As the two exact distances add up to `1`, they are compared by the side of one half that they
are on, and no distance is rounded beyond one half. So the comparison is that of the exact distances.

* `IsNearestInteger`: the nearest integer, or the lower one of two.
* `Number.roundDown_spec`, `Number.roundUp_spec`: the integers below and above, which are not rounded.
* `Number.IsNearest.lt_iff`: how rounded distances are compared.
* `Number.distance_exact`: one of the two distances is not rounded.
* `round_is_nearest`: the value of the builtin function, for every number.
-/

namespace KLang

/-! ## The nearest integer to a quantity -/

/-- No integer is nearer to the quantity, and none that is as near is lower. -/
structure IsNearestInteger (q : ℚ) (k : ℤ) : Prop where
  le (j : ℤ) : |(k : ℚ) - q| ≤ |(j : ℚ) - q|
  lowest (j : ℤ) (h : |(j : ℚ) - q| = |(k : ℚ) - q|) : k ≤ j

section

variable {q : ℚ} {j : ℤ}

theorem le_floor_or_ceil_le (q : ℚ) (j : ℤ) : j ≤ ⌊q⌋ ∨ ⌈q⌉ ≤ j := by
  rcases le_or_gt (j : ℚ) q with h | h
  · exact .inl (Int.le_floor.mpr h)
  · exact .inr (Int.ceil_le.mpr h.le)

theorem abs_sub_of_le_floor (h : j ≤ ⌊q⌋) : |(j : ℚ) - q| = q - j := by
  rw [abs_of_nonpos (sub_nonpos.mpr (Int.le_floor.mp h)), neg_sub]

theorem abs_sub_of_ceil_le (h : ⌈q⌉ ≤ j) : |(j : ℚ) - q| = j - q :=
  abs_of_nonneg (sub_nonneg.mpr (Int.ceil_le.mp h))

theorem isNearestInteger_floor (h : q - ⌊q⌋ ≤ ⌈q⌉ - q) : IsNearestInteger q ⌊q⌋ := by
  have hfloor : |(⌊q⌋ : ℚ) - q| = q - ⌊q⌋ := abs_sub_of_le_floor le_rfl
  refine ⟨fun j => ?_, fun j heq => ?_⟩
  · rcases le_floor_or_ceil_le q j with hj | hj
    · have hcast : (j : ℚ) ≤ ⌊q⌋ := by exact_mod_cast hj
      rw [hfloor, abs_sub_of_le_floor hj]
      linarith
    · have hcast : (⌈q⌉ : ℚ) ≤ j := by exact_mod_cast hj
      rw [hfloor, abs_sub_of_ceil_le hj]
      linarith
  · rcases le_floor_or_ceil_le q j with hj | hj
    · rw [hfloor, abs_sub_of_le_floor hj] at heq
      exact (Int.cast_injective (sub_right_injective heq)).ge
    · exact (Int.floor_le_ceil q).trans hj

theorem isNearestInteger_ceil (h : ⌈q⌉ - q < q - ⌊q⌋) : IsNearestInteger q ⌈q⌉ := by
  have hceil : |(⌈q⌉ : ℚ) - q| = ⌈q⌉ - q := abs_sub_of_ceil_le le_rfl
  -- the integers below are farther away
  have hbelow {j : ℤ} (hj : j ≤ ⌊q⌋) : (⌈q⌉ : ℚ) - q < |(j : ℚ) - q| := by
    have hcast : (j : ℚ) ≤ ⌊q⌋ := by exact_mod_cast hj
    rw [abs_sub_of_le_floor hj]
    linarith
  refine ⟨fun j => ?_, fun j heq => ?_⟩
  · rcases le_floor_or_ceil_le q j with hj | hj
    · rw [hceil]
      exact (hbelow hj).le
    · have hcast : (⌈q⌉ : ℚ) ≤ j := by exact_mod_cast hj
      rw [hceil, abs_sub_of_ceil_le hj]
      linarith
  · rcases le_floor_or_ceil_le q j with hj | hj
    · exact absurd (heq.trans hceil) (hbelow hj).ne'
    · exact hj

theorem ceil_eq_floor_add_one (h : ¬∃ k : ℤ, q = k) : ⌈q⌉ = ⌊q⌋ + 1 := by
  refine (Int.ceil_eq_floor_add_one_iff_notMem q).mpr ?_
  rintro ⟨k, hk⟩
  exact h ⟨k, hk.symm⟩

end

namespace Number

variable {x : Number}

/-! ## The integers below and above -/

theorem negative_iff (hx : x.isFinite = true) (hzero : x.toRat ≠ 0) :
    x.negative = true ↔ x.toRat < 0 := by
  cases x with
  | nan | infinite => cases hx
  | finite s m e h =>
    have hnonneg : (0 : ℚ) ≤ m * 2 ^ e := by positivity
    cases s with
    | false => exact iff_of_false Bool.false_ne_true (not_lt.mpr hnonneg)
    | true =>
      have hneg : (finite true m e h).toRat ≤ 0 := neg_nonpos.mpr hnonneg
      exact iff_of_true rfl (lt_of_le_of_ne hneg hzero)

theorem floor_ceil_eq (hx : x.isFinite = true) :
    x.floor = ⌊x.toRat⌋ ∧ x.ceil = ⌈x.toRat⌉ := by
  rw [floor, ceil, truncate_of_isFinite hx]
  by_cases hwhole : ∃ k : ℤ, x.toRat = k
  · rw [(isInteger_iff hx).mpr hwhole]
    obtain ⟨k, hk⟩ := hwhole
    rw [hk, truncation_intCast, Int.floor_intCast, Int.ceil_intCast]
    exact ⟨rfl, rfl⟩
  · have hinteger : x.isInteger = false :=
      Bool.eq_false_of_not_eq_true ((isInteger_iff hx).not.mpr hwhole)
    have hzero : x.toRat ≠ 0 := fun h => hwhole ⟨0, by rw [h, Int.cast_zero]⟩
    have hsign := negative_iff hx hzero
    rw [hinteger, Bool.false_or, Bool.false_or, truncation, ceil_eq_floor_add_one hwhole]
    rcases lt_or_ge x.toRat 0 with hneg | hpos
    · rw [hsign.mpr hneg, if_pos hneg]
      simp
    · rw [Bool.eq_false_of_not_eq_true (hsign.not.mpr hpos.not_gt), if_neg hpos.not_gt]
      simp

theorem roundDown_spec (hx : x.isFinite = true) :
    x.roundDown.isFinite = true ∧ x.roundDown.toRat = ⌊x.toRat⌋ := by
  rw [roundDown, if_pos hx, (floor_ceil_eq hx).1]
  exact (hasNumber_floor hx).ofInt_spec

theorem roundUp_spec (hx : x.isFinite = true) :
    x.roundUp.isFinite = true ∧ x.roundUp.toRat = ⌈x.toRat⌉ := by
  rw [roundUp, if_pos hx, (floor_ceil_eq hx).2]
  exact (hasNumber_ceil hx).ofInt_spec

/-! ## The distances -/

theorem abs_lt_of_le_one {q : ℚ} (hnonneg : 0 ≤ q) (hle : q ≤ 1) : |q| < 2 ^ (1023 : ℤ) := by
  rw [abs_of_nonneg hnonneg]
  exact hle.trans_lt (one_lt_zpow₀ one_lt_two (by decide))

theorem below_isNearest (hx : x.isFinite = true) :
    IsNearest (x.toRat - ⌊x.toRat⌋) (x - x.roundDown) := by
  obtain ⟨hfinite, hvalue⟩ := roundDown_spec hx
  have hle := Int.floor_le x.toRat
  have hlt := Int.lt_floor_add_one x.toRat
  rw [← hvalue] at hle hlt ⊢
  exact sub_isNearest hx hfinite (abs_lt_of_le_one (by linarith) (by linarith))

theorem above_isNearest (hx : x.isFinite = true) :
    IsNearest (⌈x.toRat⌉ - x.toRat) (x.roundUp - x) := by
  obtain ⟨hfinite, hvalue⟩ := roundUp_spec hx
  have hle := Int.le_ceil x.toRat
  have hlt := Int.ceil_lt_add_one x.toRat
  rw [← hvalue] at hle hlt ⊢
  exact sub_isNearest hfinite hx (abs_lt_of_le_one (by linarith) (by linarith))

/-- The distance on the side of zero is the remainder by `1`, so it is not rounded. -/
theorem distance_exact (hx : x.isFinite = true) :
    (x - x.roundDown).toRat = x.toRat - ⌊x.toRat⌋ ∨
      (x.roundUp - x).toRat = ⌈x.toRat⌉ - x.toRat := by
  obtain ⟨hfinite, hvalue⟩ := rem_one_spec hx
  rcases lt_or_ge x.toRat 0 with hneg | hpos
  · right
    have hopposite : (x % 1).neg.toRat = ⌈x.toRat⌉ - x.toRat := by
      rw [toRat_neg, hvalue, truncation, if_pos hneg, neg_sub]
    have hnearest := above_isNearest hx
    rw [← hopposite] at hnearest ⊢
    exact hnearest.toRat_eq ((isFinite_withSign _ _).trans hfinite)
  · left
    have hnearest := below_isNearest hx
    rw [← truncation_of_nonneg hpos, ← hvalue] at hnearest ⊢
    exact hnearest.toRat_eq hfinite

/-- Two quantities that add up to `1` are compared as before after they have been rounded, if one of
the two is not changed. -/
theorem IsNearest.lt_iff {p q : ℚ} {a b : Number} (ha : IsNearest p a) (hb : IsNearest q b)
    (hsum : p + q = 1) (hexact : a.toRat = p ∨ b.toRat = q) : b.toRat < a.toRat ↔ q < p := by
  obtain ⟨half, hfinite, hhalf⟩ : ∃ z : Number, z.isFinite = true ∧ z.toRat = 1 / 2 :=
    ⟨.finite false (2 ^ (52 : ℕ)) (-53) (by decide), rfl, by norm_num [toRat]⟩
  rcases lt_or_ge q p with hlt | hle
  · have hbelow : b.toRat ≤ 1 / 2 := hhalf ▸ hb.toRat_le hfinite (by linarith)
    have habove : 1 / 2 ≤ a.toRat := hhalf ▸ ha.le_toRat hfinite (by linarith)
    refine iff_of_true ?_ hlt
    -- the one that is not changed is not equal to one half
    rcases hexact with hp | hq
    · linarith
    · linarith
  · have hbelow : a.toRat ≤ 1 / 2 := hhalf ▸ ha.toRat_le hfinite (by linarith)
    have habove : 1 / 2 ≤ b.toRat := hhalf ▸ hb.le_toRat hfinite (by linarith)
    exact iff_of_false (by linarith) (by linarith)

/-! ## The builtin function -/

theorem roundNearest_eq (hx : x.isFinite = true) :
    x.roundNearest =
      if ⌈x.toRat⌉ - x.toRat < x.toRat - ⌊x.toRat⌋ then x.roundUp else x.roundDown := by
  by_cases hwhole : ∃ k : ℤ, x.toRat = k
  · obtain ⟨hfloor, hceil⟩ := floor_ceil_eq hx
    obtain ⟨k, hk⟩ := hwhole
    have hsame : x.roundUp = x.roundDown := by
      rw [roundUp, roundDown, hfloor, hceil, hk, Int.floor_intCast, Int.ceil_intCast]
    rw [roundNearest, hsame, ite_self, ite_self]
  · have hbelow := below_isNearest hx
    have habove := above_isNearest hx
    have hsum : x.toRat - ⌊x.toRat⌋ + (⌈x.toRat⌉ - x.toRat) = 1 := by
      rw [ceil_eq_floor_add_one hwhole]
      push_cast
      ring
    have hcompare : (x.roundUp - x).lt (x - x.roundDown) = true ↔
        ⌈x.toRat⌉ - x.toRat < x.toRat - ⌊x.toRat⌋ :=
      (lt_iff habove.isFinite hbelow.isFinite).trans (hbelow.lt_iff habove hsum (distance_exact hx))
    simp only [roundNearest, hcompare]

theorem roundNearest_spec (hx : x.isFinite = true) :
    x.roundNearest.isFinite = true ∧
      ∃ k : ℤ, x.roundNearest.toRat = k ∧ IsNearestInteger x.toRat k := by
  rw [roundNearest_eq hx]
  split
  · rename_i hlt
    obtain ⟨hfinite, hvalue⟩ := roundUp_spec hx
    exact ⟨hfinite, _, hvalue, isNearestInteger_ceil hlt⟩
  · rename_i hle
    obtain ⟨hfinite, hvalue⟩ := roundDown_spec hx
    exact ⟨hfinite, _, hvalue, isNearestInteger_floor (not_lt.mp hle)⟩

theorem roundNearest_of_not_isFinite (hx : x.isFinite = false) : x.roundNearest = x := by
  cases x with
  | nan => rfl
  | infinite s => cases s <;> rfl
  | finite => cases hx

end Number

/-- **Rounding goes to the nearest integer, and to the lower one of two.** The builtin function gives a
number for every number. For a finite one, this is the nearest integer, and the lower one of two that
are equally near, although the distances that it compares are rounded. Infinities and `nan` are given
back as they are. -/
theorem round_is_nearest (world : World) (l : Option Location) (x : Number) :
    ∃ b r, Library.math.builtins.get? "round" = some b ∧
      callBuiltin world l b [.number x] = pure (.number r) ∧
      (x.isFinite = true →
        r.isFinite = true ∧ ∃ k : ℤ, r.toRat = k ∧ IsNearestInteger x.toRat k) ∧
      (x.isFinite = false → r = x) :=
  ⟨_, _, rfl, callBuiltin_function world l "round" Number.roundNearest x,
    Number.roundNearest_spec, Number.roundNearest_of_not_isFinite⟩

/-- The distance to the integer below is rounded to one half here, and the other one is shorter. -/
theorem round_is_nearest_below_half :
    let x : Number := .finite true (2 ^ (53 : ℕ) - 1) (-54) (by decide)
    x.isFinite = true ∧ ∃ b r, Library.math.builtins.get? "round" = some b ∧
      callBuiltin default none b [.number x] = pure (.number r) ∧ r.toRat = 0 := by
  intro x
  have hvalue : x.toRat = -(2 ^ 53 - 1) / 2 ^ 54 := by norm_num [x, Number.toRat]
  obtain ⟨b, r, hb, hcall, hfinite, -⟩ := round_is_nearest default none x
  obtain ⟨-, k, hk, hnearest⟩ := hfinite rfl
  have hle := hnearest.le 0
  rw [hvalue, Int.cast_zero] at hle
  have hdistance : |(0 : ℚ) - -(2 ^ 53 - 1) / 2 ^ 54| < 1 / 2 := by norm_num
  obtain ⟨hlow, hhigh⟩ := abs_lt.mp (hle.trans_lt hdistance)
  have hzero : k = 0 := by
    have hlt : (k : ℚ) < 1 := by linarith
    have hgt : (-1 : ℚ) < k := by linarith
    have hlt' : k < 1 := by exact_mod_cast hlt
    have hgt' : -1 < k := by exact_mod_cast hgt
    omega
  exact ⟨rfl, b, r, hb, hcall, by rw [hk, hzero, Int.cast_zero]⟩

end KLang
