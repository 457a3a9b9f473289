import KLang.Proofs.Number.Nearest

/-!
# Integers of the format

The format has a number for every integer that is not longer than a significand, and for longer ones
that end in zeros. Such an integer is not rounded. Since large numbers have no fraction, the integers
next to a number are always of this kind.

* `HasNumber`: the format has a number for the integer, and `HasNumber.toRat_ofInt`: it is rounded to
  that.
* `exists_intCast_of_le`: large numbers have no fraction.
* `hasNumber_floor`, `hasNumber_ceil`: the integers next to a number.
-/

namespace KLang

open Number

/-- The format has a number for the integer. -/
def HasNumber (k : ℤ) : Prop := ∃ z : Number, z.isFinite = true ∧ z.toRat = k

namespace HasNumber

variable {k : ℤ}

theorem neg (h : HasNumber k) : HasNumber (-k) := by
  obtain ⟨z, hz, hvalue⟩ := h
  exact ⟨z.neg, (isFinite_withSign _ z).trans hz, by rw [toRat_neg, hvalue, Int.cast_neg]⟩

theorem of_natAbs {m : ℕ} {g : ℤ} (hm : m < 2 ^ (53 : ℕ)) (hlow : -1074 ≤ g) (hhigh : g ≤ 971)
    (h : (k.natAbs : ℚ) = m * 2 ^ g) : HasNumber k := by
  obtain ⟨hfinite, hvalue⟩ := toRat_ofScaled (decide (k < 0)) hm hlow hhigh
  refine ⟨_, hfinite, ?_⟩
  rw [hvalue, ← h, ← cast_signed, signed_natAbs]

theorem two_pow {n : ℕ} (hn : n ≤ 971) : HasNumber (2 ^ n) :=
  of_natAbs (m := 1) (g := n) (by decide) (by omega) (by omega) (by simp [Int.natAbs_pow])

theorem of_natAbs_le (h : k.natAbs ≤ 2 ^ (53 : ℕ)) : HasNumber k := by
  rcases Nat.lt_or_eq_of_le h with hlt | heq
  · exact of_natAbs (g := 0) hlt (by decide) (by decide) (by simp)
  · refine of_natAbs (m := 2 ^ (52 : ℕ)) (g := 1) (by decide) (by decide) (by decide) ?_
    rw [heq]
    norm_num

theorem ofInt_spec (h : HasNumber k) : (ofInt k).isFinite = true ∧ (ofInt k).toRat = k := by
  obtain ⟨z, hz, hvalue⟩ := h
  cases z with
  | nan | infinite => cases hz
  | finite s m e hcanonical =>
    have hmagnitude : (k.natAbs / (1 : ℕ) : ℚ) = m * 2 ^ e := by
      have hpos : (0 : ℚ) ≤ m * 2 ^ e := by positivity
      rw [Nat.cast_one, div_one, Nat.cast_natAbs, Int.cast_abs, ← hvalue]
      cases s <;> simp [toRat, abs_of_nonneg hpos]
    rw [ofInt_eq_ofRatio, ofRatio_eq_finite _ hcanonical one_pos hmagnitude]
    refine ⟨rfl, ?_⟩
    rw [toRat_finite, ← hmagnitude, Nat.cast_one, div_one, ← cast_signed, signed_natAbs]

theorem isFinite_ofInt (h : HasNumber k) : (ofInt k).isFinite = true := h.ofInt_spec.1

theorem toRat_ofInt (h : HasNumber k) : (ofInt k).toRat = k := h.ofInt_spec.2

end HasNumber

/-! ## The integers next to a number -/

/-- Numbers of this size have no fraction. -/
theorem exists_intCast_of_le {x : Number} (hx : x.isFinite = true) (h : 2 ^ 52 ≤ |x.toRat|) :
    ∃ k : ℤ, x.toRat = k := by
  cases x with
  | nan | infinite => cases hx
  | finite s m e hm =>
    have hmagnitude : |(finite s m e hm).toRat| = m * 2 ^ e := by
      have hpos : (0 : ℚ) ≤ m * 2 ^ e := by positivity
      cases s <;> simp [toRat, abs_of_nonneg hpos]
    have hexponent : 0 ≤ e := by
      by_contra hneg
      have hlt : (m * 2 ^ e : ℚ) < 2 ^ 52 := by
        calc (m * 2 ^ e : ℚ) < (2 ^ (53 : ℕ) : ℕ) * 2 ^ e :=
              mul_lt_mul_of_pos_right (by exact_mod_cast hm.1) (two_zpow_pos e)
          _ ≤ (2 ^ (53 : ℕ) : ℕ) * 2 ^ (-1 : ℤ) :=
              mul_le_mul_of_nonneg_left (two_zpow_le.mpr (by omega)) (Nat.cast_nonneg _)
          _ = 2 ^ 52 := by norm_num
      rw [hmagnitude] at h
      exact absurd hlt (not_lt.mpr h)
    obtain ⟨k, rfl⟩ := Int.eq_ofNat_of_zero_le hexponent
    refine ⟨signed s (m * 2 ^ k), ?_⟩
    cases s <;> simp [toRat, signed]

variable {x : Number}

theorem hasNumber_floor (hx : x.isFinite = true) : HasNumber ⌊x.toRat⌋ := by
  rcases le_or_gt (2 ^ 52) |x.toRat| with hlong | hshort
  · obtain ⟨k, hk⟩ := exists_intCast_of_le hx hlong
    rw [hk, Int.floor_intCast]
    exact ⟨x, hx, hk⟩
  · obtain ⟨hlow, hhigh⟩ := abs_lt.mp hshort
    have hle : -2 ^ 52 ≤ ⌊x.toRat⌋ := Int.le_floor.mpr (by exact_mod_cast hlow.le)
    have hlt : ⌊x.toRat⌋ < 2 ^ 52 := Int.floor_lt.mpr (by exact_mod_cast hhigh)
    exact .of_natAbs_le (by omega)

theorem hasNumber_ceil (hx : x.isFinite = true) : HasNumber ⌈x.toRat⌉ := by
  have hneg : x.neg.isFinite = true := (isFinite_withSign _ x).trans hx
  have hfloor := hasNumber_floor hneg
  rw [toRat_neg, Int.floor_neg] at hfloor
  simpa using hfloor.neg

end KLang
