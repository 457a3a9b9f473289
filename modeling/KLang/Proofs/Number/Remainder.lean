import KLang.Proofs.Number.Order
import KLang.Number.Power

/-!
# Remainders and whole numbers

The remainder of two finite numbers is what the quotient without its fraction leaves of the dividend.
It is shorter than one of the operands, so it is not rounded. Whether a number is whole is said of
the quantity.

* `Number.rem_spec`: the remainder and its sign.
* `Number.rem_one_spec`: the remainder by `1` is what truncation cuts off.
* `Number.isInteger_iff`: the numbers that are whole.
* `Number.rem_two_eq_one_iff`: the numbers with remainder `1` by `2` are the odd ones above zero.
-/

namespace KLang

theorem floor_natCast_div (a b : ℕ) : ⌊(a / b : ℚ)⌋ = (a / b : ℕ) := by
  rw [Rat.floor_natCast_div_natCast]
  exact (Int.natCast_ediv a b).symm

theorem cast_mod (a b : ℕ) : ((a % b : ℕ) : ℚ) = a - b * truncation (a / b) := by
  have hdiv : ((b * (a / b) + a % b : ℕ) : ℚ) = a := congrArg Nat.cast (Nat.div_add_mod a b)
  rw [truncation_of_nonneg (by positivity), floor_natCast_div, Int.cast_natCast]
  push_cast at hdiv
  linarith

theorem mod_shiftLeft_lt {m n b : ℕ} (e f : ℤ) (hm : m < b) (hn : n < b) (hpos : 0 < n) :
    m <<< (e - min e f).toNat % n <<< (f - min e f).toNat < b := by
  rcases le_total e f with h | h
  · rw [min_eq_left h, sub_self]
    exact (Nat.mod_le m _).trans_lt hm
  · rw [min_eq_right h, sub_self]
    exact (Nat.mod_lt _ hpos).trans hn

namespace Number

/-- The remainder is not rounded: it is the dividend without the multiple of the divisor that the
quotient has without its fraction. It has the sign of the dividend, also if it is zero. -/
theorem rem_spec {x y : Number} (hx : x.isFinite = true) (hy : y.isFinite = true)
    (hzero : y.toRat ≠ 0) : (x % y).isFinite = true ∧ (x % y).negative = x.negative ∧
      (x % y).toRat = x.toRat - y.toRat * truncation (x.toRat / y.toRat) := by
  cases x with
  | nan | infinite => cases hx
  | finite s m e hm =>
    cases y with
    | nan | infinite => cases hy
    | finite t n f hn =>
      have hn0 : n ≠ 0 := by
        rintro rfl
        exact hzero (by simp [toRat])
      have hshort := mod_shiftLeft_lt e f hm.1 hn.1 (Nat.pos_of_ne_zero hn0)
      -- both magnitudes in the places of the shorter one
      generalize hg : min e f = g at hshort
      generalize ha : m <<< (e - g).toNat = a at hshort
      generalize hb : n <<< (f - g).toNat = b at hshort
      have hx' : (m * 2 ^ e : ℚ) = a * 2 ^ g := by rw [← ha, cast_shiftLeft_sub (by omega)]
      have hy' : (n * 2 ^ f : ℚ) = b * 2 ^ g := by rw [← hb, cast_shiftLeft_sub (by omega)]
      have hrem : finite s m e hm % finite t n f hn = ofScaled s (a % b) g := by
        change rem _ _ = _
        simp only [rem, if_neg hn0, hg, ha, hb]
      have hbpos : 0 < b := by
        rw [← hb, Nat.shiftLeft_eq]
        exact Nat.mul_pos (Nat.pos_of_ne_zero hn0) (Nat.two_pow_pos _)
      obtain ⟨hfinite, hvalue⟩ := toRat_ofScaled s hshort (show -1074 ≤ g from
        hg ▸ le_min hm.2.1 hn.2.1) (hg ▸ (min_le_left e f).trans hm.2.2.1)
      rw [hrem]
      refine ⟨hfinite, negative_ofScaled s _ g, ?_⟩
      have hpow : (2 : ℚ) ^ g ≠ 0 := (two_zpow_pos g).ne'
      have hb' : (b : ℚ) ≠ 0 := by exact_mod_cast hbpos.ne'
      have hquotient : (finite s m e hm).toRat / (finite t n f hn).toRat =
          if s = t then (a / b : ℚ) else -(a / b : ℚ) := by
        rw [toRat_finite, toRat_finite, hx', hy']
        cases s <;> cases t <;> simp <;> field_simp
      rw [hvalue, cast_mod, hquotient, toRat_finite, toRat_finite, hx', hy']
      cases s <;> cases t <;> simp [truncation_neg] <;> ring

variable {x : Number}

/-- Remainders by `1` are what truncation cuts off. -/
theorem rem_one_spec (hx : x.isFinite = true) :
    (x % 1).isFinite = true ∧ (x % 1).toRat = x.toRat - truncation x.toRat := by
  obtain ⟨hone, hvalue⟩ := toRat_ofNat (n := 1) (by decide)
  obtain ⟨hfinite, -, hrem⟩ := rem_spec hx hone (by rw [hvalue]; norm_num)
  rw [hvalue, Nat.cast_one, div_one, one_mul] at hrem
  exact ⟨hfinite, hrem⟩

/-! ## Whole numbers -/

theorem isFinite_of_isInteger (h : x.isInteger = true) : x.isFinite = true := by
  cases x with
  | nan | infinite => cases h
  | finite => rfl

theorem isInteger_iff (hx : x.isFinite = true) : x.isInteger = true ↔ ∃ k : ℤ, x.toRat = k := by
  cases x with
  | nan | infinite => cases hx
  | finite s m e h =>
    have hpow : (2 : ℚ) ^ (-e).toNat ≠ 0 := pow_ne_zero _ two_ne_zero
    have hfloor : (scaledFloor m e : ℚ) = (⌊(m * 2 ^ e : ℚ)⌋ : ℤ) := by
      rw [← cast_scaledFloor, Int.cast_natCast]
    have hmagnitude : (finite s m e h).isInteger = true ↔ ∃ k : ℤ, (m * 2 ^ e : ℚ) = k := by
      rw [isInteger, beq_iff_eq, ← Nat.cast_inj (R := ℚ), cast_shiftLeft, cast_shiftLeft,
        pow_toNat two_ne_zero e, ← mul_assoc, mul_left_inj' hpow, hfloor]
      constructor
      · exact fun h => ⟨_, h.symm⟩
      · rintro ⟨k, hk⟩
        rw [hk, Int.floor_intCast]
    rw [hmagnitude]
    cases s with
    | false => simp [toRat]
    | true =>
      simp only [toRat, if_true]
      constructor
      · rintro ⟨k, hk⟩
        exact ⟨-k, by rw [hk, Int.cast_neg]⟩
      · rintro ⟨k, hk⟩
        exact ⟨-k, by rw [Int.cast_neg, ← hk, neg_neg]⟩

theorem truncation_intCast (k : ℤ) : truncation k = k := by
  unfold truncation
  split <;> simp

/-- Remainder `1` by `2` is left by the odd numbers above zero and by no others. -/
theorem rem_two_eq_one_iff (hx : x.isFinite = true) :
    (x % 2).eq 1 = true ↔ ∃ k : ℕ, x.toRat = 2 * k + 1 := by
  obtain ⟨htwo, hvalue⟩ := toRat_ofNat (n := 2) (by decide)
  obtain ⟨hfinite, -, hrem⟩ := rem_spec hx htwo (by rw [hvalue]; norm_num)
  rw [hvalue] at hrem
  refine (eq_ofNat_iff (n := 1) hfinite (by decide)).trans ?_
  rw [hrem, Nat.cast_ofNat, Nat.cast_one]
  generalize x.toRat = q
  constructor
  · intro h
    have hq : q = 2 * (truncation (q / 2) : ℤ) + 1 := by linarith
    -- below zero, the quotient without its fraction is the other neighbour
    have hnonneg : 0 ≤ q := by
      by_contra hneg
      have hceil : truncation (q / 2) = ⌈q / 2⌉ := if_pos (by linarith)
      have hle := Int.le_ceil (q / 2)
      rw [hceil] at hq
      linarith
    have htruncation : truncation (q / 2) = ⌊q / 2⌋ := truncation_of_nonneg (by linarith)
    obtain ⟨k, hk⟩ := Int.eq_ofNat_of_zero_le (Int.floor_nonneg.mpr (by linarith : 0 ≤ q / 2))
    refine ⟨k, ?_⟩
    rw [htruncation, hk] at hq
    exact_mod_cast hq
  · rintro ⟨k, rfl⟩
    have hfloor : ⌊((2 * k + 1 : ℚ) / 2)⌋ = k := by
      rw [Int.floor_eq_iff]
      constructor
      · push_cast
        linarith
      · push_cast
        linarith
    rw [truncation_of_nonneg (by positivity), hfloor]
    push_cast
    ring

end Number

end KLang
