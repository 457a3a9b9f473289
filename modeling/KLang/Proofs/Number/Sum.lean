import KLang.Number.Arithmetic
import KLang.Proofs.Number.Nearest

/-!
# Sums and differences are rounded once

Both terms are written in the places of the smaller exponent, where their sum is an integer. So the
exact sum is what is rounded, and it is not rounded at all if it is a number of the format.

* `Number.add_isNearest`, `Number.sub_isNearest`: the sum and the difference of two numbers.
-/

namespace KLang.Number

variable {x y : Number}

/-- Sums below the last power of two are rounded to the nearest number. -/
theorem add_isNearest (hx : x.isFinite = true) (hy : y.isFinite = true)
    (h : |x.toRat + y.toRat| < 2 ^ (1023 : ℤ)) : IsNearest (x.toRat + y.toRat) (x + y) := by
  cases x with
  | nan | infinite => cases hx
  | finite s m e hm =>
    cases y with
    | nan | infinite => cases hy
    | finite t n f hn =>
      -- both terms in the places of the smaller exponent
      generalize hg : min e f = g
      generalize htotal : signed s (m <<< (e - g).toNat) + signed t (n <<< (f - g).toNat) = total
      have hvalue : (finite s m e hm).toRat + (finite t n f hn).toRat = total * 2 ^ g := by
        rw [← htotal, toRat_finite, toRat_finite, Int.cast_add, cast_signed, cast_signed, add_mul,
          mul_assoc, mul_assoc, cast_shiftLeft_sub (by omega), cast_shiftLeft_sub (by omega)]
      -- a sum that is zero has a sign of its own
      obtain ⟨u, hsum, hsign⟩ : ∃ u, finite s m e hm + finite t n f hn = ofScaled u total.natAbs g ∧
          signed u total.natAbs = total := by
        change ∃ u, add _ _ = _ ∧ _
        simp only [add, hg, htotal]
        split
        · rename_i hzero
          exact ⟨s && t, by simp [hzero, ofScaled], by simp [hzero, signed]⟩
        · exact ⟨decide (total < 0), rfl, signed_natAbs total⟩
      have hmagnitude : (total.natAbs * 2 ^ g : ℚ) < 2 ^ (1023 : ℤ) := by
        rwa [hvalue, abs_mul, abs_of_pos (two_zpow_pos g), ← Int.cast_abs, ← Nat.cast_natAbs] at h
      have hnearest := ofScaled_isNearest u hmagnitude
      rwa [← mul_assoc, ← cast_signed, hsign, ← hvalue, ← hsum] at hnearest

/-- Differences below the last power of two are rounded to the nearest number. -/
theorem sub_isNearest (hx : x.isFinite = true) (hy : y.isFinite = true)
    (h : |x.toRat - y.toRat| < 2 ^ (1023 : ℤ)) : IsNearest (x.toRat - y.toRat) (x - y) := by
  rw [sub_eq_add_neg, ← toRat_neg] at h ⊢
  exact add_isNearest hx ((isFinite_withSign _ y).trans hy) h

end KLang.Number
