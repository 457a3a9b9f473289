import KLang.Number.Decimal
import KLang.Proofs.Number.Quotient

/-!
# Decimals and the numbers nearest to them

* `Decimal.value`: the magnitude that a decimal stands for.
* `Number.ofDecimal_congr`: a decimal is read by its value.
* `Number.ofDecimal_of_value_le`, `Number.ofDecimal_of_value_lt`: which values overflow and which vanish.
* `Number.ofDecimal_shortest`: the shortest decimal of a number reads back to it.
-/

namespace KLang

/-! ## Values -/

namespace Decimal

/-- The magnitude `digits * 10 ^ exponent`. -/
def value (d : Decimal) : ℚ := d.digits * 10 ^ d.exponent

theorem ten_ne_zero : (10 : ℚ) ≠ 0 := by norm_num

theorem ten_zpow_pos (e : ℤ) : (0 : ℚ) < 10 ^ e := zpow_pos (by norm_num) e

theorem value_eq_div (d : Decimal) :
    ((d.digits * 10 ^ d.exponent.toNat : ℕ) : ℚ) / (10 ^ (-d.exponent).toNat : ℕ) = d.value := by
  have hpos : (10 : ℚ) ^ (-d.exponent).toNat ≠ 0 := pow_ne_zero _ ten_ne_zero
  push_cast
  rw [div_eq_iff hpos, pow_toNat ten_ne_zero, value, mul_assoc]

theorem value_strip (d : Decimal) : d.strip.value = d.value := by
  induction d using strip.induct with
  | case1 d h ih =>
    rw [strip, dif_pos h, ih]
    have hdigits : (d.digits : ℚ) = (d.digits / 10 : ℕ) * 10 := by
      exact_mod_cast (Nat.div_mul_cancel (Nat.dvd_of_mod_eq_zero h.2)).symm
    rw [value, value, hdigits, zpow_add_one₀ ten_ne_zero]
    ring
  | case2 d h => rw [strip, dif_neg h]

theorem value_ofScaled (m : ℕ) (e : ℤ) : (ofScaled m e).value = m * 2 ^ e := by
  have hexponent : min e 0 = -((-e).toNat : ℤ) := by omega
  have hpow : (5 : ℚ) ^ (-e).toNat * 2 ^ (-e).toNat = 10 ^ (-e).toNat := by
    rw [← mul_pow]
    norm_num
  have hpos : (10 : ℚ) ^ (-e).toNat ≠ 0 := pow_ne_zero _ ten_ne_zero
  simp only [value, ofScaled, hexponent, zpow_neg, zpow_natCast, Nat.cast_mul, cast_shiftLeft,
    Nat.cast_pow, Nat.cast_ofNat, pow_toNat two_ne_zero e]
  rw [← div_eq_mul_inv, div_eq_iff hpos, ← hpow]
  ring

/-! ### Bounds by powers of two -/

theorem eight_zpow (e : ℤ) : (8 : ℚ) ^ e = 2 ^ (3 * e) := by
  rw [zpow_mul]
  norm_num

theorem two_zpow_le_ten {e : ℤ} (h : 0 ≤ e) : (2 : ℚ) ^ (3 * e) ≤ 10 ^ e := by
  rw [← eight_zpow]
  exact zpow_le_zpow_left₀ h (by norm_num) (by norm_num)

theorem ten_zpow_le_two {e : ℤ} (h : e ≤ 0) : (10 : ℚ) ^ e ≤ 2 ^ (3 * e) := by
  have hle := two_zpow_le_ten (Int.neg_nonneg_of_nonpos h)
  rw [Int.mul_neg, zpow_neg, zpow_neg] at hle
  exact (inv_le_inv₀ (two_zpow_pos _) (ten_zpow_pos _)).mp hle

end Decimal

/-! ## Reading a decimal -/

namespace Number

open Decimal

theorem ofDecimal_eq_ofRatio (s : Bool) (d : Decimal) :
    ofDecimal s d = ofRatio s (d.digits * 10 ^ d.exponent.toNat) (10 ^ (-d.exponent).toNat) := by
  have hden : 0 < 10 ^ (-d.exponent).toNat := Nat.pow_pos (by omega)
  unfold ofDecimal
  split
  · rename_i hzero
    simp [ofRatio, hzero]
  rename_i hzero
  have hdigits : 0 < d.digits := Nat.pos_of_ne_zero hzero
  split
  · rename_i hlarge
    refine (ofRatio_of_le s hden ?_).symm
    rw [value_eq_div]
    calc (2 : ℚ) ^ (1024 : ℤ) ≤ 2 ^ (3 * d.exponent) := two_zpow_le.mpr hlarge.le
      _ ≤ 10 ^ d.exponent := two_zpow_le_ten (by omega)
      _ ≤ d.value := le_mul_of_one_le_left (ten_zpow_pos _).le (by exact_mod_cast hdigits)
  split
  · rename_i hsmall
    refine (ofRatio_of_lt s hden ?_).symm
    rw [value_eq_div]
    calc d.value < 2 ^ (d.digits.log2 + 1 : ℤ) * 10 ^ d.exponent :=
          mul_lt_mul_of_pos_right (log2_bounds hdigits).2 (ten_zpow_pos _)
      _ ≤ 2 ^ (d.digits.log2 + 1 : ℤ) * 2 ^ (3 * d.exponent) :=
          mul_le_mul_of_nonneg_left (ten_zpow_le_two (by omega)) (two_zpow_pos _).le
      _ = 2 ^ (d.digits.log2 + 1 + 3 * d.exponent) := (zpow_add₀ two_ne_zero _ _).symm
      _ ≤ 2 ^ (-1075 : ℤ) := two_zpow_le.mpr (by omega)
  · rfl

/-- A decimal is read by its value, however it is written. -/
theorem ofDecimal_congr (s : Bool) {d d' : Decimal} (h : d.value = d'.value) :
    ofDecimal s d = ofDecimal s d' := by
  rw [ofDecimal_eq_ofRatio, ofDecimal_eq_ofRatio]
  refine ofRatio_congr s (Nat.pow_pos (by omega)) (Nat.pow_pos (by omega)) ?_
  rw [value_eq_div, value_eq_div, h]

theorem ofDecimal_eq_finite (s : Bool) {m : ℕ} {e : ℤ} {d : Decimal} (h : Canonical m e)
    (hd : d.value = m * 2 ^ e) : ofDecimal s d = .finite s m e h := by
  rw [ofDecimal_eq_ofRatio]
  exact ofRatio_eq_finite s h (Nat.pow_pos (by omega)) ((value_eq_div d).trans hd)

theorem ofDecimal_of_value_le (s : Bool) {d : Decimal} (h : (2 : ℚ) ^ (1024 : ℤ) ≤ d.value) :
    ofDecimal s d = .infinite s := by
  rw [ofDecimal_eq_ofRatio]
  exact ofRatio_of_le s (Nat.pow_pos (by omega)) (h.trans_eq (value_eq_div d).symm)

theorem ofDecimal_of_value_lt (s : Bool) {d : Decimal} (h : d.value < 2 ^ (-1075 : ℤ)) :
    ofDecimal s d = zero s := by
  rw [ofDecimal_eq_ofRatio]
  exact ofRatio_of_lt s (Nat.pow_pos (by omega)) ((value_eq_div d).trans_lt h)

theorem withSign_ofDecimal (s t : Bool) (d : Decimal) :
    (ofDecimal s d).withSign t = ofDecimal t d := by
  rw [ofDecimal_eq_ofRatio, ofDecimal_eq_ofRatio, withSign_ofRatio]

/-! ## The shortest decimal -/

theorem ofDecimal_of_readsBack {x : Number} {d d' : Decimal} (h : x.readsBack d = some d') :
    ofDecimal false d' = x := by
  unfold readsBack at h
  split at h
  · rename_i hread
    obtain rfl := Option.some.inj h
    exact hread
  · cases h

theorem ofDecimal_of_onGrid {x : Number} {num den : ℕ} {g : ℤ} {d : Decimal}
    (h : x.onGrid num den g = some d) : ofDecimal false d = x := by
  unfold onGrid at h
  dsimp only at h
  split at h
  · rename_i hbelow habove
    obtain rfl := Option.some.inj h
    split
    · exact ofDecimal_of_readsBack hbelow
    · exact ofDecimal_of_readsBack habove
  · rename_i hbelow _
    obtain rfl := Option.some.inj h
    exact ofDecimal_of_readsBack hbelow
  · exact ofDecimal_of_readsBack h

theorem ofDecimal_shortestOf {m : ℕ} {e : ℤ} (h : Canonical m e) :
    ofDecimal false (shortestOf m e) = .finite false m e h := by
  unfold shortestOf
  dsimp only
  generalize hfound : List.findSome? _ _ = found
  cases found with
  | some d =>
    obtain ⟨n, -, hn⟩ := List.exists_of_findSome?_eq_some hfound
    rw [← pack_of_canonical false h]
    exact ofDecimal_of_onGrid hn
  | none =>
    refine ofDecimal_eq_finite false h ?_
    rw [Option.getD_none, value_strip, value_ofScaled]

/-- The shortest decimal of a number reads back to it. -/
theorem ofDecimal_shortest {x : Number} (h : x.isFinite = true) :
    ofDecimal x.negative x.shortest = x := by
  cases x with
  | nan | infinite => cases h
  | finite s m e hc =>
    rw [← withSign_ofDecimal false]
    unfold shortest
    dsimp only
    split
    · rename_i hzero
      subst hzero
      obtain rfl : e = -1074 := by
        have := hc.2.2.2
        omega
      rfl
    · rw [ofDecimal_shortestOf hc]
      rfl

end Number

end KLang
