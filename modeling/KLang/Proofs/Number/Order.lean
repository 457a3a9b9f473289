import KLang.Proofs.Number.Nearest

/-!
# The order of numbers

Finite numbers are ordered by the quantities they stand for. Their ranks are compared instead: the
exponent first and then the significand, since of two numbers of the format the one with the larger
exponent is the larger one.

* `Number.compare?_of_isFinite`: the order of two finite numbers is that of their quantities.
* `Number.lt_iff`, `Number.eq_iff`, `Number.le_iff`: the comparisons that follow.
* `Number.toRat_ofNat`: short natural numbers are numbers of the format, and `Number.lt_ofNat_iff`,
  `Number.le_ofNat_iff`, `Number.ofNat_lt_iff`, `Number.eq_ofNat_iff`: comparisons with them.
-/

namespace KLang

/-! ## Magnitudes -/

theorem place_lt_iff {m n : ℕ} {e f : ℤ} (hm : Canonical m e) (hn : Canonical n f) :
    (e + 1074).toNat * 2 ^ (53 : ℕ) + m < (f + 1074).toNat * 2 ^ (53 : ℕ) + n ↔
      (m * 2 ^ e : ℚ) < n * 2 ^ f := by
  -- a number with a larger exponent is not one of the smallest, so its significand is long
  have hexponent {m n : ℕ} {e f : ℤ} (hm : Canonical m e) (hn : Canonical n f) (h : e < f) :
      (m * 2 ^ e : ℚ) < n * 2 ^ f := by
    obtain ⟨hshort, hlow, -, -⟩ := hm
    have hlong : 2 ^ (52 : ℕ) ≤ n := hn.2.2.2.resolve_right (by omega)
    calc (m * 2 ^ e : ℚ) < (2 ^ (53 : ℕ) : ℕ) * 2 ^ e :=
          mul_lt_mul_of_pos_right (by exact_mod_cast hshort) (two_zpow_pos e)
      _ = (2 ^ (52 : ℕ) : ℕ) * 2 ^ (e + 1) := by
          rw [zpow_add_one₀ two_ne_zero]
          push_cast
          ring
      _ ≤ (2 ^ (52 : ℕ) : ℕ) * 2 ^ f := by
          have hpow : (2 : ℚ) ^ (e + 1) ≤ 2 ^ f := two_zpow_le.mpr (by omega)
          gcongr
      _ ≤ n * 2 ^ f := by gcongr
  have hshort := hm.1
  have hlow := hm.2.1
  have hshort' := hn.1
  have hlow' := hn.2.1
  rcases lt_trichotomy e f with h | rfl | h
  · exact iff_of_true (by omega) (hexponent hm hn h)
  · rw [Nat.add_lt_add_iff_left, mul_lt_mul_iff_left₀ (two_zpow_pos e), Nat.cast_lt]
  · exact iff_of_false (by omega) (hexponent hn hm h).le.not_gt

theorem compare_eq_compare {a b : ℤ} {p q : ℚ} (hlt : a < b ↔ p < q) (hgt : b < a ↔ q < p) :
    compare a b = compare p q := by
  rcases lt_trichotomy a b with h | h | h
  · rw [compare_lt_iff_lt.mpr h, compare_lt_iff_lt.mpr (hlt.mp h)]
  · have hle : ¬p < q := hlt.not.mp h.not_lt
    have hge : ¬q < p := hgt.not.mp h.symm.not_lt
    rw [compare_eq_iff_eq.mpr h, compare_eq_iff_eq.mpr (le_antisymm (not_lt.mp hge) (not_lt.mp hle))]
  · rw [compare_gt_iff_gt.mpr h, compare_gt_iff_gt.mpr (hgt.mp h)]

theorem signed_lt_signed (s t : Bool) {a b : ℕ} {p q : ℚ} (hp : 0 ≤ p) (hq : 0 ≤ q)
    (hab : a < b ↔ p < q) (hba : b < a ↔ q < p) (ha : 0 < a ↔ 0 < p) (hb : 0 < b ↔ 0 < q) :
    signed s a < signed t b ↔ (if s then -p else p) < if t then -q else q := by
  cases s <;> cases t <;> simp only [signed, Bool.false_eq_true, if_true, if_false]
  · rw [Nat.cast_lt, hab]
  · exact iff_of_false (by omega) (by linarith)
  · constructor
    · intro h
      rcases Nat.eq_zero_or_pos a with ha' | ha'
      · have := hb.mp (by omega)
        linarith
      · have := ha.mp ha'
        linarith
    · intro h
      by_contra hle
      have ha' : ¬0 < p := ha.not.mp (by omega)
      have hb' : ¬0 < q := hb.not.mp (by omega)
      linarith
  · rw [Int.neg_lt_neg_iff, neg_lt_neg_iff, Nat.cast_lt, hba]

/-! ## Quantities -/

namespace Number

theorem signed_lt_iff (s t : Bool) {m n : ℕ} {e f : ℤ} (hm : Canonical m e) (hn : Canonical n f) :
    signed s ((e + 1074).toNat * 2 ^ (53 : ℕ) + m) < signed t ((f + 1074).toNat * 2 ^ (53 : ℕ) + n) ↔
      (finite s m e hm).toRat < (finite t n f hn).toRat := by
  -- a magnitude is zero exactly at the first place
  have hpos {m : ℕ} {e : ℤ} (hm : Canonical m e) :
      0 < (e + 1074).toNat * 2 ^ (53 : ℕ) + m ↔ (0 : ℚ) < m * 2 ^ e := by
    simpa using place_lt_iff (m := 0) (e := -1074) (by decide) hm
  exact signed_lt_signed s t (by positivity) (by positivity) (place_lt_iff hm hn)
    (place_lt_iff hn hm) (hpos hm) (hpos hn)

variable {x y : Number}

/-- Finite numbers are ordered by the quantities that they stand for. -/
theorem compare?_of_isFinite (hx : x.isFinite = true) (hy : y.isFinite = true) :
    x.compare? y = some (compare x.toRat y.toRat) := by
  cases x with
  | nan | infinite => cases hx
  | finite s m e hm =>
    cases y with
    | nan | infinite => cases hy
    | finite t n f hn =>
      exact congrArg some (compare_eq_compare (signed_lt_iff s t hm hn) (signed_lt_iff t s hn hm))

theorem lt_iff (hx : x.isFinite = true) (hy : y.isFinite = true) :
    x.lt y = true ↔ x.toRat < y.toRat := by
  rw [lt, compare?_of_isFinite hx hy, beq_iff_eq, Option.some_inj, compare_lt_iff_lt]

theorem eq_iff (hx : x.isFinite = true) (hy : y.isFinite = true) :
    x.eq y = true ↔ x.toRat = y.toRat := by
  rw [eq, compare?_of_isFinite hx hy, beq_iff_eq, Option.some_inj, compare_eq_iff_eq]

theorem le_iff (hx : x.isFinite = true) (hy : y.isFinite = true) :
    x.le y = true ↔ x.toRat ≤ y.toRat := by
  rw [le, Bool.or_eq_true, lt_iff hx hy, eq_iff hx hy, le_iff_lt_or_eq]

/-! ## Small natural numbers -/

/-- Natural numbers with a short significand are numbers of the format. -/
theorem toRat_ofNat {n : ℕ} (h : n < 2 ^ (53 : ℕ)) :
    (ofNat n).isFinite = true ∧ (ofNat n).toRat = n := by
  simpa [ofNat] using toRat_ofScaled false h (by decide : (-1074 : ℤ) ≤ 0) (by decide)

theorem lt_ofNat_iff (hx : x.isFinite = true) {n : ℕ} (hn : n < 2 ^ (53 : ℕ)) :
    x.lt (ofNat n) = true ↔ x.toRat < n := by
  obtain ⟨hfinite, hvalue⟩ := toRat_ofNat hn
  rw [lt_iff hx hfinite, hvalue]

theorem le_ofNat_iff (hx : x.isFinite = true) {n : ℕ} (hn : n < 2 ^ (53 : ℕ)) :
    x.le (ofNat n) = true ↔ x.toRat ≤ n := by
  obtain ⟨hfinite, hvalue⟩ := toRat_ofNat hn
  rw [le_iff hx hfinite, hvalue]

theorem ofNat_lt_iff (hx : x.isFinite = true) {n : ℕ} (hn : n < 2 ^ (53 : ℕ)) :
    (ofNat n).lt x = true ↔ n < x.toRat := by
  obtain ⟨hfinite, hvalue⟩ := toRat_ofNat hn
  rw [lt_iff hfinite hx, hvalue]

theorem eq_ofNat_iff (hx : x.isFinite = true) {n : ℕ} (hn : n < 2 ^ (53 : ℕ)) :
    x.eq (ofNat n) = true ↔ x.toRat = n := by
  obtain ⟨hfinite, hvalue⟩ := toRat_ofNat hn
  rw [eq_iff hx hfinite, hvalue]

end Number

end KLang
