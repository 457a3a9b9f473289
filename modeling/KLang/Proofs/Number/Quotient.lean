import KLang.Number.Rounding
import Mathlib.Algebra.Order.Field.Power
import Mathlib.Data.Rat.Cast.Order
import Mathlib.Tactic.FieldSimp
import Mathlib.Tactic.Linarith
import Mathlib.Tactic.NormNum
import Mathlib.Tactic.Positivity
import Mathlib.Tactic.Ring

/-!
# Rounding a quotient

A quotient is rounded by its value: neither how it is written as a fraction nor the sign has any
influence on the magnitude that comes out.

* `binade_eq_iff`: the binade of a quotient is that of its value.
* `Number.ofRatio_congr`: equal quotients are rounded to the same number.
* `Number.ofRatio_eq_finite`: a quotient that is a number of the format is that number.
* `Number.ofRatio_of_le`, `Number.ofRatio_of_lt`: where quotients overflow and where they vanish.
-/

namespace KLang

/-! ## Powers with integer exponents -/

theorem pow_toNat {b : ℚ} (hb : b ≠ 0) (e : ℤ) : b ^ e.toNat = b ^ e * b ^ (-e).toNat := by
  rcases Int.le_total 0 e with h | h
  · obtain ⟨n, rfl⟩ := Int.eq_ofNat_of_zero_le h
    simp
  · obtain ⟨n, hn⟩ := Int.eq_ofNat_of_zero_le (Int.neg_nonneg_of_nonpos h)
    obtain rfl : e = -(n : ℤ) := by omega
    simp [hb]

theorem cast_shiftLeft (m n : ℕ) : ((m <<< n : ℕ) : ℚ) = m * 2 ^ n := by
  rw [Nat.shiftLeft_eq]
  exact_mod_cast rfl

theorem cast_shiftLeft_sub {m : ℕ} {e g : ℤ} (h : g ≤ e) :
    ((m <<< (e - g).toNat : ℕ) : ℚ) * 2 ^ g = m * 2 ^ e := by
  have hpow : (2 : ℚ) ^ e = 2 ^ (e - g).toNat * 2 ^ g := by
    rw [← zpow_natCast, ← zpow_add₀ two_ne_zero]
    congr 1
    omega
  rw [cast_shiftLeft, hpow, mul_assoc]

theorem two_zpow_pos (e : ℤ) : (0 : ℚ) < 2 ^ e := zpow_pos two_pos e

theorem two_zpow_lt {a b : ℤ} : (2 : ℚ) ^ a < 2 ^ b ↔ a < b := zpow_lt_zpow_iff_right₀ one_lt_two

theorem two_zpow_le {a b : ℤ} : (2 : ℚ) ^ a ≤ 2 ^ b ↔ a ≤ b := zpow_le_zpow_iff_right₀ one_lt_two

/-! ## The binade -/

theorem log2_bounds {n : ℕ} (hn : 0 < n) : (2 : ℚ) ^ (n.log2 : ℤ) ≤ n ∧ (n : ℚ) < 2 ^ (n.log2 + 1 : ℤ) := by
  have hlow : 2 ^ n.log2 ≤ n := Nat.log2_self_le (by omega)
  have hhigh : n < 2 ^ (n.log2 + 1) := Nat.lt_log2_self
  constructor
  · exact_mod_cast hlow
  · exact_mod_cast hhigh

theorem binade_unique {r : ℚ} {b c : ℤ} (hb : 2 ^ b ≤ r ∧ r < 2 ^ (b + 1))
    (hc : 2 ^ c ≤ r ∧ r < 2 ^ (c + 1)) : b = c := by
  have hbc : b < c + 1 := two_zpow_lt.mp (lt_of_le_of_lt hb.1 hc.2)
  have hcb : c < b + 1 := two_zpow_lt.mp (lt_of_le_of_lt hc.1 hb.2)
  omega

theorem binade_bounds {num den : ℕ} (hn : 0 < num) (hd : 0 < den) :
    (2 : ℚ) ^ binade num den ≤ num / den ∧ (num / den : ℚ) < 2 ^ (binade num den + 1) := by
  have hd' : (0 : ℚ) < den := by exact_mod_cast hd
  obtain ⟨hnlow, hnhigh⟩ := log2_bounds hn
  obtain ⟨hdlow, hdhigh⟩ := log2_bounds hd
  set d : ℤ := (num.log2 : ℤ) - den.log2 with hdef
  -- the first guess is at most one too high
  have hhigh : (num / den : ℚ) < 2 ^ (d + 1) := by
    rw [div_lt_iff₀ hd']
    calc (num : ℚ) < 2 ^ (num.log2 + 1 : ℤ) := hnhigh
      _ = 2 ^ (d + 1) * 2 ^ (den.log2 : ℤ) := by
        rw [← zpow_add₀ two_ne_zero]
        congr 1
        omega
      _ ≤ 2 ^ (d + 1) * den := mul_le_mul_of_nonneg_left hdlow (two_zpow_pos _).le
  have hlow : (2 : ℚ) ^ (d - 1) ≤ num / den := by
    rw [le_div_iff₀ hd']
    calc (2 : ℚ) ^ (d - 1) * den ≤ 2 ^ (d - 1) * 2 ^ (den.log2 + 1 : ℤ) :=
          mul_le_mul_of_nonneg_left hdhigh.le (two_zpow_pos _).le
      _ = 2 ^ (num.log2 : ℤ) := by
        rw [← zpow_add₀ two_ne_zero]
        congr 1
        omega
      _ ≤ num := hnlow
  have htest : den <<< d.toNat ≤ num <<< (-d).toNat ↔ (2 : ℚ) ^ d ≤ num / den := by
    have hpos : (0 : ℚ) < 2 ^ (-d).toNat := by positivity
    rw [← Nat.cast_le (α := ℚ), cast_shiftLeft, cast_shiftLeft, pow_toNat two_ne_zero d,
      le_div_iff₀ hd', ← mul_assoc, mul_comm (den : ℚ)]
    exact mul_le_mul_iff_left₀ hpos
  unfold binade
  simp only [← hdef, htest]
  split
  · rename_i hle
    exact ⟨hle, hhigh⟩
  · rename_i hlt
    refine ⟨hlow, ?_⟩
    rw [Int.sub_add_cancel]
    exact not_le.mp hlt

/-- The binade of a quotient is that of its value. -/
theorem binade_eq_iff {num den : ℕ} (hn : 0 < num) (hd : 0 < den) {b : ℤ} :
    binade num den = b ↔ (2 : ℚ) ^ b ≤ num / den ∧ (num / den : ℚ) < 2 ^ (b + 1) := by
  constructor
  · rintro rfl
    exact binade_bounds hn hd
  · exact binade_unique (binade_bounds hn hd)

theorem binade_of_eq {num den m : ℕ} {e : ℤ} (hn : 0 < num) (hd : 0 < den) (hm : 0 < m)
    (h : (num / den : ℚ) = m * 2 ^ e) : binade num den = m.log2 + e := by
  obtain ⟨hlow, hhigh⟩ := log2_bounds hm
  rw [binade_eq_iff hn hd, h, zpow_add₀ two_ne_zero, Int.add_right_comm, zpow_add₀ two_ne_zero]
  exact ⟨mul_le_mul_of_nonneg_right hlow (two_zpow_pos e).le,
    mul_lt_mul_of_pos_right hhigh (two_zpow_pos e)⟩

/-! ## The nearest integer -/

theorem nearest_mul {k : ℕ} (hk : 0 < k) (num den : ℕ) :
    nearest (k * num) (k * den) = nearest num den := by
  unfold nearest
  rw [Nat.mul_div_mul_left _ _ hk, Nat.mul_mod_mul_left]
  have hlt (a b : ℕ) : 2 * (k * a) < k * b ↔ 2 * a < b := by
    rw [Nat.mul_left_comm]
    exact Nat.mul_lt_mul_left hk
  have hlt' (a b : ℕ) : k * b < 2 * (k * a) ↔ b < 2 * a := by
    rw [Nat.mul_left_comm 2]
    exact Nat.mul_lt_mul_left hk
  simp only [hlt, hlt']

theorem nearest_congr {num den num' den' : ℕ} (hd : 0 < den) (hd' : 0 < den')
    (h : num * den' = num' * den) : nearest num den = nearest num' den' := by
  calc nearest num den = nearest (den' * num) (den' * den) := (nearest_mul hd' num den).symm
    _ = nearest (den * num') (den * den') := by
      rw [Nat.mul_comm den' num, h, Nat.mul_comm num' den, Nat.mul_comm den' den]
    _ = nearest num' den' := nearest_mul hd num' den'

theorem nearest_mul_self (m : ℕ) {den : ℕ} (hd : 0 < den) : nearest (m * den) den = m := by
  unfold nearest
  rw [Nat.mul_div_cancel m hd, Nat.mul_mod_left]
  simp [hd]

theorem nearest_eq_zero {num den : ℕ} (h : 2 * num < den) : nearest num den = 0 := by
  unfold nearest
  rw [Nat.div_eq_of_lt (by omega), Nat.mod_eq_of_lt (by omega)]
  simp [h]

/-! ## Rounding to the format -/

namespace Number

theorem withSign_pack (s t : Bool) (m : ℕ) (e : ℤ) : (pack s m e).withSign t = pack t m e := by
  unfold pack
  split <;> rfl

theorem withSign_settle (s t : Bool) (m : ℕ) (e : ℤ) :
    (settle s m e).withSign t = settle t m e := by
  unfold settle
  split <;> exact withSign_pack s t _ _

theorem withSign_ofRatio (s t : Bool) (num den : ℕ) :
    (ofRatio s num den).withSign t = ofRatio t num den := by
  unfold ofRatio
  split
  · rfl
  · exact withSign_settle s t _ _

theorem pack_of_canonical (s : Bool) {m : ℕ} {e : ℤ} (h : Canonical m e) :
    pack s m e = .finite s m e h := by
  rw [pack, dif_pos h]

theorem pack_of_not_canonical (s : Bool) {m : ℕ} {e : ℤ} (h : ¬Canonical m e) :
    pack s m e = .infinite s := by
  rw [pack, dif_neg h]

theorem settle_of_lt (s : Bool) (m : ℕ) {e : ℤ} (h : 971 < e) : settle s m e = .infinite s := by
  unfold settle
  split
  · exact pack_of_not_canonical s fun hc => by have := hc.2.2.1; omega
  · exact pack_of_not_canonical s fun hc => by have := hc.2.2.1; omega

theorem ofRatio_of_pos (s : Bool) {num den : ℕ} (hn : 0 < num) (hd : 0 < den) {e : ℤ}
    (he : unitExponent (binade num den) = e) :
    ofRatio s num den = settle s (nearest (num <<< (-e).toNat) (den <<< e.toNat)) e := by
  rw [ofRatio, if_neg (by omega), ← he]

/-- Equal quotients are rounded to the same number. -/
theorem ofRatio_congr (s : Bool) {num den num' den' : ℕ} (hd : 0 < den) (hd' : 0 < den')
    (h : (num / den : ℚ) = num' / den') : ofRatio s num den = ofRatio s num' den' := by
  have hcross : num * den' = num' * den := by
    have hd₀ : (den : ℚ) ≠ 0 := by exact_mod_cast hd.ne'
    have hd₀' : (den' : ℚ) ≠ 0 := by exact_mod_cast hd'.ne'
    rw [div_eq_div_iff hd₀ hd₀'] at h
    exact_mod_cast h
  rcases Nat.eq_zero_or_pos num with rfl | hn
  · obtain rfl : num' = 0 := by
      rw [Nat.zero_mul] at hcross
      exact (Nat.mul_eq_zero.mp hcross.symm).resolve_right hd.ne'
    simp [ofRatio]
  · have hn' : 0 < num' := by
      refine Nat.pos_of_ne_zero fun h0 => ?_
      rw [h0, Nat.zero_mul] at hcross
      exact absurd hcross (Nat.mul_pos hn hd').ne'
    have hbinade : binade num den = binade num' den' := by
      rw [binade_eq_iff hn hd, h]
      exact binade_bounds hn' hd'
    rw [ofRatio_of_pos s hn hd rfl, ofRatio_of_pos s hn' hd' rfl, hbinade]
    congr 1
    simp only [Nat.shiftLeft_eq]
    refine nearest_congr (Nat.mul_pos hd (Nat.two_pow_pos _)) (Nat.mul_pos hd' (Nat.two_pow_pos _)) ?_
    rw [Nat.mul_mul_mul_comm, hcross, Nat.mul_mul_mul_comm]

theorem unitExponent_log2 {m : ℕ} {e : ℤ} (h : Canonical m e) (hm : 0 < m) :
    unitExponent (m.log2 + e) = e := by
  obtain ⟨hlt, hlow, -, hfull⟩ := h
  have hlog : m.log2 < 53 := (Nat.log2_lt hm.ne').mpr hlt
  unfold unitExponent
  rcases hfull with hfull | rfl
  · have hlog' : 52 ≤ m.log2 := (Nat.le_log2 hm.ne').mpr hfull
    omega
  · omega

/-- A quotient that is a number of the format is that number. -/
theorem ofRatio_eq_finite (s : Bool) {m num den : ℕ} {e : ℤ} (h : Canonical m e) (hd : 0 < den)
    (heq : (num / den : ℚ) = m * 2 ^ e) : ofRatio s num den = .finite s m e h := by
  have hd' : (0 : ℚ) < den := by exact_mod_cast hd
  rcases Nat.eq_zero_or_pos m with rfl | hm
  · obtain rfl : num = 0 := by
      rw [div_eq_iff hd'.ne'] at heq
      exact_mod_cast (by simpa using heq : (num : ℚ) = 0)
    obtain rfl : e = -1074 := by
      have := h.2.2.2
      omega
    simp [ofRatio, zero]
  · have hvalue : (0 : ℚ) < m * 2 ^ e := mul_pos (by exact_mod_cast hm) (two_zpow_pos e)
    have hn : 0 < num := by
      refine Nat.pos_of_ne_zero fun h0 => ?_
      rw [h0, Nat.cast_zero, zero_div] at heq
      exact absurd heq hvalue.ne
    have hunit : unitExponent (binade num den) = e := by
      rw [binade_of_eq hn hd hm heq]
      exact unitExponent_log2 h hm
    have hscaled : num <<< (-e).toNat = m * (den <<< e.toNat) := by
      rw [← Nat.cast_inj (R := ℚ), Nat.cast_mul, cast_shiftLeft, cast_shiftLeft,
        pow_toNat two_ne_zero e, (div_eq_iff hd'.ne').mp heq]
      ring
    have hlt := h.1
    rw [ofRatio_of_pos s hn hd hunit, hscaled, nearest_mul_self m (by
      rw [Nat.shiftLeft_eq]
      exact Nat.mul_pos hd (Nat.two_pow_pos _)), settle, if_neg (by omega), pack_of_canonical s h]

/-- Quotients overflow from the power of two behind the largest number on. -/
theorem ofRatio_of_le (s : Bool) {num den : ℕ} (hd : 0 < den) (h : (2 : ℚ) ^ (1024 : ℤ) ≤ num / den) :
    ofRatio s num den = .infinite s := by
  have hn : 0 < num := by
    refine Nat.pos_of_ne_zero fun h0 => ?_
    rw [h0, Nat.cast_zero, zero_div] at h
    exact absurd h (not_le.mpr (two_zpow_pos _))
  have hbinade : 1024 < binade num den + 1 :=
    two_zpow_lt.mp (lt_of_le_of_lt h (binade_bounds hn hd).2)
  rw [ofRatio_of_pos s hn hd rfl]
  refine settle_of_lt s _ ?_
  unfold unitExponent
  omega

/-- Quotients vanish below half of the smallest positive number. -/
theorem ofRatio_of_lt (s : Bool) {num den : ℕ} (hd : 0 < den)
    (h : (num / den : ℚ) < 2 ^ (-1075 : ℤ)) : ofRatio s num den = zero s := by
  have hd' : (0 : ℚ) < den := by exact_mod_cast hd
  rcases Nat.eq_zero_or_pos num with rfl | hn
  · simp [ofRatio]
  · have hbinade : binade num den < -1075 :=
      two_zpow_lt.mp (lt_of_le_of_lt (binade_bounds hn hd).1 h)
    have hunit : unitExponent (binade num den) = -1074 := by
      unfold unitExponent
      omega
    have hsmall : 2 * num <<< (-(-1074 : ℤ)).toNat < den <<< (-1074 : ℤ).toNat := by
      rw [← Nat.cast_lt (α := ℚ), Nat.cast_mul, cast_shiftLeft, cast_shiftLeft]
      rw [div_lt_iff₀ hd'] at h
      have hpow : (2 : ℚ) ^ (1075 : ℤ) = 2 * 2 ^ (1074 : ℕ) := by
        rw [← zpow_natCast, ← zpow_one_add₀ two_ne_zero]
        rfl
      calc ((2 : ℕ) : ℚ) * (num * 2 ^ (1074 : ℕ)) = 2 ^ (1075 : ℤ) * num := by
            rw [hpow, Nat.cast_ofNat, mul_assoc, mul_comm (num : ℚ)]
        _ < 2 ^ (1075 : ℤ) * (2 ^ (-1075 : ℤ) * den) := mul_lt_mul_of_pos_left h (two_zpow_pos _)
        _ = den * 2 ^ (0 : ℕ) := by
            rw [← mul_assoc, ← zpow_add₀ two_ne_zero]
            simp
    rw [ofRatio_of_pos s hn hd hunit, nearest_eq_zero hsmall]
    rfl

end Number

end KLang
