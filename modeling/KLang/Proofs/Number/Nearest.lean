import KLang.Proofs.Number.Overflow
import KLang.Proofs.Number.Truncation

/-!
# The number nearest to a quantity

Which number a quantity should be rounded to, said without the rounding: no other number is nearer,
and of two that are equally near it is the one with the even significand. What the format rounds is
this number, as long as it is not infinite.

* `Number.IsNearest`: a number is the one nearest to a quantity.
* `Number.ofRatio_isNearest`, `Number.ofScaled_isNearest`, `Number.ofInt_isNearest`: quotients, scaled
  integers and integers are rounded to it.
* `Number.toRat_ofScaled`: quantities of the format are not changed.
* `Number.IsNearest.toRat_le`, `Number.IsNearest.le_toRat`: rounding does not pass a number.
-/

namespace KLang

/-! ## The nearest integer -/

theorem nearest_spec (num : ℕ) {den : ℕ} (hd : 0 < den) (k : ℕ) :
    |(nearest num den : ℚ) - num / den| ≤ |(k : ℚ) - num / den| ∧
      (|(k : ℚ) - num / den| = |(nearest num den : ℚ) - num / den| → k ≠ nearest num den →
        nearest num den % 2 = 0) := by
  have hd' : (0 : ℚ) < den := by exact_mod_cast hd
  -- distances to the quotient are those of integers, `den` times as large
  have hscale (j : ℕ) :
      |(j : ℚ) - num / den| = ((((j * den : ℕ) : ℤ) - num).natAbs : ℕ) / den := by
    rw [Nat.cast_natAbs, Int.cast_abs, ← abs_of_pos hd', ← abs_div, abs_of_pos hd']
    congr 1
    field_simp
    push_cast
    ring
  rw [hscale, hscale, div_le_div_iff_of_pos_right hd', div_left_inj' hd'.ne', Nat.cast_le,
    Nat.cast_inj]
  have hdiv : num / den * den + num % den = num := Nat.div_add_mod' num den
  have hmod : num % den < den := Nat.mod_lt num hd
  generalize hq : num / den = q at hdiv
  generalize hr : num % den = r at hdiv hmod
  -- the multiples of `den` in front of the quotient and behind it
  have hbelow : k ≤ q → k * den ≤ q * den := Nat.mul_le_mul_right den
  have habove : q + 1 ≤ k → (q + 1) * den ≤ k * den := Nat.mul_le_mul_right den
  have hbelow' : k < q → (k + 1) * den ≤ q * den := fun h => Nat.mul_le_mul_right den h
  have habove' : q + 1 < k → (q + 1 + 1) * den ≤ k * den := fun h => Nat.mul_le_mul_right den h
  simp only [Nat.add_mul, Nat.one_mul] at habove hbelow' habove'
  unfold nearest
  rw [hq, hr]
  dsimp only
  rcases lt_trichotomy (2 * r) den with h | h | h
  · rw [if_pos h]
    omega
  · rw [if_neg (by omega), if_neg (by omega)]
    rcases Nat.mod_two_eq_zero_or_one q with hq' | hq'
    · rw [hq', Nat.add_zero]
      omega
    · rw [hq', Nat.add_mul, Nat.one_mul]
      omega
  · rw [if_neg (by omega), if_pos h, Nat.add_mul, Nat.one_mul]
    omega

namespace Number

/-- The significand of a finite number. -/
def significand : Number → ℕ
  | .finite _ m _ _ => m
  | _ => 0

/-- The number is the one nearest to the quantity: no other one is nearer, and if one is as near, the
significand is even. -/
structure IsNearest (q : ℚ) (r : Number) : Prop where
  isFinite : r.isFinite = true
  le : ∀ z : Number, z.isFinite = true → |r.toRat - q| ≤ |z.toRat - q|
  even : ∀ z : Number, z.isFinite = true → |z.toRat - q| = |r.toRat - q| → z.toRat ≠ r.toRat →
    r.significand % 2 = 0

/-! ## The opposite sign -/

theorem isFinite_withSign (s : Bool) (x : Number) : (x.withSign s).isFinite = x.isFinite := by
  cases x <;> rfl

theorem toRat_neg (x : Number) : x.neg.toRat = -x.toRat := by
  cases x with
  | nan | infinite => simp [neg, withSign, toRat]
  | finite s m e h => cases s <;> simp [neg, withSign, negative, toRat]

theorem neg_involutive (x : Number) : x.neg.neg = x := by
  cases x with
  | nan => rfl
  | infinite s | finite s => cases s <;> rfl

theorem IsNearest.neg {q : ℚ} {r : Number} (h : IsNearest q r) : IsNearest (-q) r.neg := by
  have hdistance (z : Number) : |z.toRat - -q| = |z.neg.toRat - q| := by
    rw [toRat_neg, ← abs_neg]
    congr 1
    ring
  refine ⟨(isFinite_withSign _ r).trans h.isFinite, fun z hz => ?_, fun z hz heq hne => ?_⟩
  · rw [hdistance, hdistance, neg_involutive]
    exact h.le z.neg ((isFinite_withSign _ z).trans hz)
  · rw [hdistance, hdistance, neg_involutive] at heq
    have heven := h.even z.neg ((isFinite_withSign _ z).trans hz) heq fun hzr => hne <| by
      rw [toRat_neg, ← hzr, toRat_neg, neg_neg]
    cases r <;> exact heven

/-! ## Numbers around a quantity -/

/-- Around a positive quantity, the numbers are multiples of the last place of its binade, or they
lie below the binade, where the places are shorter. -/
theorem multiple_or_below {z : Number} (hz : z.isFinite = true) (b : ℤ) :
    (∃ k : ℕ, z.toRat = k * 2 ^ unitExponent b) ∨
      (z.toRat < 2 ^ b ∧ unitExponent b = b - 52) ∨ z.toRat < 0 := by
  cases z with
  | nan | infinite => cases hz
  | finite s m f h =>
    obtain ⟨hm, hf, -, -⟩ := h
    by_cases hmultiple : unitExponent b ≤ f
    · have hpow : (2 : ℚ) ^ f = 2 ^ (f - unitExponent b).toNat * 2 ^ unitExponent b := by
        rw [← zpow_natCast, ← zpow_add₀ two_ne_zero]
        congr 1
        omega
      cases s with
      | false => exact .inl ⟨m * 2 ^ (f - unitExponent b).toNat, by simp [toRat, hpow, mul_assoc]⟩
      | true =>
        rcases Nat.eq_zero_or_pos m with rfl | hpos
        · exact .inl ⟨0, by simp [toRat]⟩
        · refine .inr (.inr ?_)
          have : (0 : ℚ) < m * 2 ^ f := mul_pos (by exact_mod_cast hpos) (two_zpow_pos f)
          simpa [toRat] using this
    · have hunit : unitExponent b = b - 52 := by
        unfold unitExponent at hmultiple ⊢
        omega
      have hbelow : (m * 2 ^ f : ℚ) < 2 ^ b := by
        calc (m * 2 ^ f : ℚ) < (2 ^ (53 : ℕ) : ℕ) * 2 ^ f :=
              mul_lt_mul_of_pos_right (by exact_mod_cast hm) (two_zpow_pos f)
          _ = 2 ^ (53 + f) := by
              rw [zpow_add₀ two_ne_zero]
              norm_num
          _ ≤ 2 ^ b := two_zpow_le.mpr (by omega)
      refine .inr (.inl ⟨lt_of_le_of_lt ?_ hbelow, hunit⟩)
      cases s with
      | false => exact le_refl _
      | true =>
        have : (0 : ℚ) ≤ m * 2 ^ f := by positivity
        simp only [toRat, if_true]
        linarith

theorem nearest_multiple {num den : ℕ} (hn : 0 < num) (hd : 0 < den) {e : ℤ}
    (he : unitExponent (binade num den) = e) {z : Number} (hz : z.isFinite = true) :
    let n := nearest (num <<< (-e).toNat) (den <<< e.toNat)
    |n * 2 ^ e - (num / den : ℚ)| ≤ |z.toRat - num / den| ∧
      (|z.toRat - num / den| = |n * 2 ^ e - (num / den : ℚ)| → z.toRat ≠ n * 2 ^ e → n % 2 = 0) := by
  intro n
  have hd' : (0 : ℚ) < den := by exact_mod_cast hd
  have hden : 0 < den <<< e.toNat := by
    rw [Nat.shiftLeft_eq]
    exact Nat.mul_pos hd (Nat.two_pow_pos _)
  have hquotient : (num / den : ℚ) = (num <<< (-e).toNat : ℕ) / (den <<< e.toNat : ℕ) * 2 ^ e := by
    have hpos : (0 : ℚ) < 2 ^ (-e).toNat := by positivity
    rw [cast_shiftLeft, cast_shiftLeft, pow_toNat two_ne_zero e]
    field_simp
  have hscale (k : ℕ) : |(k : ℚ) * 2 ^ e - num / den| =
      |(k : ℚ) - (num <<< (-e).toNat : ℕ) / (den <<< e.toNat : ℕ)| * 2 ^ e := by
    rw [hquotient, ← sub_mul, abs_mul, abs_of_pos (two_zpow_pos e)]
  have hmultiple (k : ℕ) : |n * 2 ^ e - (num / den : ℚ)| ≤ |(k : ℚ) * 2 ^ e - num / den| := by
    rw [hscale, hscale]
    exact mul_le_mul_of_nonneg_right (nearest_spec _ hden k).1 (two_zpow_pos e).le
  -- numbers on the other side of such a multiple are farther away than that
  have hfar (k : ℕ) (hlt : z.toRat < k * 2 ^ e) (hle : (k : ℚ) * 2 ^ e ≤ num / den) :
      |n * 2 ^ e - (num / den : ℚ)| < |z.toRat - num / den| := by
    refine lt_of_le_of_lt (hmultiple k) ?_
    rw [abs_of_nonpos (by linarith), abs_of_nonpos (by linarith)]
    linarith
  obtain ⟨k, hk⟩ | ⟨hlt, hunit⟩ | hneg := multiple_or_below hz (binade num den)
  · rw [he] at hk
    rw [hk]
    refine ⟨hmultiple k, fun heq hne => ?_⟩
    rw [hscale, hscale] at heq
    refine (nearest_spec _ hden k).2 (mul_right_cancel₀ (two_zpow_pos e).ne' heq) fun hkn => hne ?_
    rw [hkn]
  · have hbinade : ((2 ^ (52 : ℕ) : ℕ) : ℚ) * 2 ^ e = 2 ^ binade num den := by
      rw [← he, hunit, Nat.cast_pow, Nat.cast_ofNat, ← zpow_natCast, ← zpow_add₀ two_ne_zero]
      congr 1
      push_cast
      ring
    have hclose := hfar (2 ^ (52 : ℕ)) (by rwa [hbinade])
      (by rw [hbinade]; exact (binade_bounds hn hd).1)
    exact ⟨hclose.le, fun heq => absurd heq hclose.ne'⟩
  · have hclose := hfar 0 (by simpa using hneg) (by simpa using (div_pos (by exact_mod_cast hn) hd').le)
    exact ⟨hclose.le, fun heq => absurd heq hclose.ne'⟩

/-! ## Rounding -/

theorem settle_of_isFinite {s : Bool} {m : ℕ} {e : ℤ} (h : (settle s m e).isFinite = true) :
    (settle s m e).toRat = (if s then -1 else 1) * (m * 2 ^ e) ∧
      (m % 2 = 0 → (settle s m e).significand % 2 = 0) := by
  have hpack {m : ℕ} {e : ℤ} (h : (pack s m e).isFinite = true) :
      (pack s m e).toRat = (if s then -1 else 1) * (m * 2 ^ e) ∧ (pack s m e).significand = m := by
    rw [pack_of_canonical s ((isFinite_pack s).mp h)]
    cases s <;> simp [toRat, significand]
  unfold settle at h ⊢
  split at h
  · rename_i hcarry
    rw [if_pos hcarry]
    obtain ⟨hvalue, hsignificand⟩ := hpack h
    refine ⟨?_, fun _ => by rw [hsignificand]; decide⟩
    rw [hvalue, hcarry, zpow_add_one₀ two_ne_zero]
    push_cast
    ring
  · rename_i hcarry
    rw [if_neg hcarry]
    obtain ⟨hvalue, hsignificand⟩ := hpack h
    exact ⟨hvalue, fun heven => by rw [hsignificand, heven]⟩

theorem nearest_bounds {num den : ℕ} (hn : 0 < num) (hd : 0 < den) {e : ℤ}
    (he : unitExponent (binade num den) = e) :
    let n := nearest (num <<< (-e).toNat) (den <<< e.toNat)
    n ≤ 2 ^ (53 : ℕ) ∧ (2 ^ (52 : ℕ) ≤ n ∨ e = -1074) := by
  intro n
  obtain ⟨hlow, hhigh⟩ := binade_bounds hn hd
  have hd' : (0 : ℚ) < den := by exact_mod_cast hd
  have hden : 0 < den <<< e.toNat := by
    rw [Nat.shiftLeft_eq]
    exact Nat.mul_pos hd (Nat.two_pow_pos _)
  have hcompare (k : ℕ) : k * den <<< e.toNat ≤ num <<< (-e).toNat ↔ (k * 2 ^ e : ℚ) ≤ num / den := by
    have hpos : (0 : ℚ) < 2 ^ (-e).toNat := by positivity
    have hshift : (k * (den * (2 ^ e * 2 ^ (-e).toNat)) : ℚ) = k * 2 ^ e * den * 2 ^ (-e).toNat := by
      ring
    rw [← Nat.cast_le (α := ℚ), Nat.cast_mul, cast_shiftLeft, cast_shiftLeft,
      pow_toNat two_ne_zero e, le_div_iff₀ hd', hshift]
    exact mul_le_mul_iff_left₀ hpos
  have hpow (k : ℕ) : ((2 ^ k : ℕ) : ℚ) * 2 ^ e = 2 ^ (k + e) := by
    rw [Nat.cast_pow, Nat.cast_ofNat, ← zpow_natCast, ← zpow_add₀ two_ne_zero]
  have hle : num <<< (-e).toNat / den <<< e.toNat < 2 ^ (53 : ℕ) := by
    rw [Nat.div_lt_iff_lt_mul hden, ← not_le, hcompare, hpow, not_le]
    refine hhigh.trans_le (two_zpow_le.mpr ?_)
    unfold unitExponent at he
    push_cast
    omega
  refine ⟨(nearest_le _ _).trans hle, ?_⟩
  by_cases hsmall : e = -1074
  · exact .inr hsmall
  · left
    refine le_trans ?_ (le_nearest _ _)
    rw [Nat.le_div_iff_mul_le hden, hcompare, hpow]
    refine le_trans (two_zpow_le.mpr ?_) hlow
    unfold unitExponent at he
    push_cast
    omega

/-- Quotients are rounded to the nearest number, unless that is infinite. -/
theorem ofRatio_isNearest {num den : ℕ} (hd : 0 < den)
    (h : (ofRatio false num den).isFinite = true) :
    IsNearest (num / den) (ofRatio false num den) := by
  rcases Nat.eq_zero_or_pos num with rfl | hn
  · have hzero : ofRatio false 0 den = zero false := by simp [ofRatio]
    have hvalue : (zero false).toRat = 0 := by simp [toRat, zero]
    rw [hzero]
    refine ⟨rfl, fun z _ => ?_, fun z _ heq hne => ?_⟩
    · simp [hvalue]
    · refine absurd ?_ hne
      simpa [hvalue] using heq
  · rw [ofRatio_of_pos false hn hd rfl] at h ⊢
    obtain ⟨hvalue, heven⟩ := settle_of_isFinite h
    rw [if_neg (by decide), one_mul] at hvalue
    refine ⟨h, fun z hz => ?_, fun z hz heq hne => heven ?_⟩
    · rw [hvalue]
      exact (nearest_multiple hn hd rfl hz).1
    · rw [hvalue] at heq hne
      exact (nearest_multiple hn hd rfl hz).2 heq hne

theorem isFinite_ofRatio (s : Bool) {num den : ℕ} (hd : 0 < den)
    (h : (num / den : ℚ) < 2 ^ (1023 : ℤ)) : (ofRatio s num den).isFinite = true := by
  rcases Nat.eq_zero_or_pos num with rfl | hn
  · simp [ofRatio, zero, isFinite]
  · have hbinade : binade num den < 1023 :=
      two_zpow_lt.mp ((binade_bounds hn hd).1.trans_lt h)
    obtain ⟨hle, hge⟩ := nearest_bounds hn hd rfl
    rw [ofRatio_of_pos s hn hd rfl]
    have hunit : unitExponent (binade num den) ≤ 970 := by
      unfold unitExponent
      omega
    have hlow : -1074 ≤ unitExponent (binade num den) := le_max_right _ _
    unfold settle
    split
    · rw [isFinite_pack, Canonical]
      omega
    · rw [isFinite_pack, Canonical]
      omega

/-! ## Scaled integers -/

theorem scaled_eq_quotient (m : ℕ) (e : ℤ) :
    ((m <<< e.toNat : ℕ) : ℚ) / (1 <<< (-e).toNat : ℕ) = m * 2 ^ e := by
  have hpos : (2 : ℚ) ^ (-e).toNat ≠ 0 := pow_ne_zero _ two_ne_zero
  rw [cast_shiftLeft, cast_shiftLeft, Nat.cast_one, one_mul, div_eq_iff hpos, mul_assoc,
    pow_toNat two_ne_zero e]

theorem one_shiftLeft_pos (n : ℕ) : 0 < 1 <<< n := by
  rw [Nat.one_shiftLeft]
  exact Nat.two_pow_pos n

theorem ofScaled_eq_ofRatio (s : Bool) (m : ℕ) (e : ℤ) :
    ofScaled s m e = ofRatio s (m <<< e.toNat) (1 <<< (-e).toNat) := by
  rcases Nat.eq_zero_or_pos m with rfl | hm
  · simp [ofScaled, ofRatio]
  have hn : 0 < m <<< e.toNat := by
    rw [Nat.shiftLeft_eq]
    exact Nat.mul_pos hm (Nat.two_pow_pos _)
  have hd := one_shiftLeft_pos (-e).toNat
  rw [ofRatio_of_pos s hn hd rfl, binade_of_eq hn hd hm (scaled_eq_quotient m e), ofScaled, if_neg hm.ne']
  dsimp only
  congr 1
  refine nearest_congr (one_shiftLeft_pos _) ?_ ?_
  · rw [Nat.shiftLeft_eq]
    exact Nat.mul_pos hd (Nat.two_pow_pos _)
  · simp only [Nat.shiftLeft_eq, Nat.one_mul, Nat.mul_assoc, ← Nat.pow_add]
    congr 2
    omega

theorem exists_canonical {k : ℕ} {g : ℤ} (hk : k < 2 ^ (53 : ℕ)) (hlow : -1074 ≤ g)
    (hhigh : g ≤ 971) : ∃ (m : ℕ) (e : ℤ), Canonical m e ∧ (m * 2 ^ e : ℚ) = k * 2 ^ g := by
  rcases Nat.eq_zero_or_pos k with rfl | hpos
  · exact ⟨0, -1074, by decide, by simp⟩
  -- as far to the left as the length and the smallest place allow
  have hlog : k.log2 < 53 := (Nat.log2_lt hpos.ne').mpr hk
  obtain ⟨t, ht⟩ : ∃ t : ℕ, t = min (52 - k.log2) (g + 1074).toNat := ⟨_, rfl⟩
  have hlength : 2 ^ (k.log2 + t) ≤ k * 2 ^ t ∧ k * 2 ^ t < 2 ^ (k.log2 + 1 + t) := by
    rw [Nat.pow_add, Nat.pow_add]
    exact ⟨Nat.mul_le_mul_right _ (Nat.log2_self_le hpos.ne'),
      Nat.mul_lt_mul_of_pos_right Nat.lt_log2_self (Nat.two_pow_pos t)⟩
  refine ⟨k * 2 ^ t, g - t, ⟨?_, by omega, by omega, ?_⟩, ?_⟩
  · exact hlength.2.trans_le (Nat.pow_le_pow_right (by decide) (by omega))
  · rcases Nat.lt_or_ge (52 - k.log2) ((g + 1074).toNat + 1) with hfull | hshort
    · exact .inl ((Nat.pow_le_pow_right (by decide) (by omega)).trans hlength.1)
    · exact .inr (by omega)
  · have hpow : (2 : ℚ) ^ g = 2 ^ t * 2 ^ (g - t) := by
      rw [← zpow_natCast, ← zpow_add₀ two_ne_zero]
      congr 1
      omega
    rw [hpow]
    push_cast
    ring

/-- A scaled integer with a short significand is not rounded at all. -/
theorem toRat_ofScaled (s : Bool) {k : ℕ} {g : ℤ} (hk : k < 2 ^ (53 : ℕ)) (hlow : -1074 ≤ g)
    (hhigh : g ≤ 971) : (ofScaled s k g).isFinite = true ∧
      (ofScaled s k g).toRat = (if s then -1 else 1) * (k * 2 ^ g) := by
  obtain ⟨m, e, hcanonical, hvalue⟩ := exists_canonical hk hlow hhigh
  have hquotient := (scaled_eq_quotient k g).trans hvalue.symm
  rw [ofScaled_eq_ofRatio, ofRatio_eq_finite s hcanonical (one_shiftLeft_pos _) hquotient, ← hvalue]
  exact ⟨rfl, toRat_finite s hcanonical⟩

/-! ## Signs -/

theorem negative_ofRatio (s : Bool) (num den : ℕ) : (ofRatio s num den).negative = s := by
  have hpack (m : ℕ) (e : ℤ) : (pack s m e).negative = s := by
    unfold pack
    split <;> rfl
  unfold ofRatio
  split
  · rfl
  · dsimp only [settle]
    split <;> exact hpack _ _

theorem negative_ofScaled (s : Bool) (m : ℕ) (e : ℤ) : (ofScaled s m e).negative = s := by
  rw [ofScaled_eq_ofRatio, negative_ofRatio]

theorem neg_ofRatio (s : Bool) (num den : ℕ) : (ofRatio s num den).neg = ofRatio (!s) num den := by
  rw [neg, negative_ofRatio, withSign_ofRatio]

theorem signed_isNearest (s : Bool) {num den : ℕ} (hd : 0 < den)
    (h : (num / den : ℚ) < 2 ^ (1023 : ℤ)) :
    IsNearest ((if s then -1 else 1) * (num / den)) (ofRatio s num den) := by
  have hnearest := ofRatio_isNearest hd (isFinite_ofRatio false hd h)
  cases s with
  | false => simpa using hnearest
  | true => simpa [neg_ofRatio] using hnearest.neg

theorem ofScaled_isNearest (s : Bool) {m : ℕ} {e : ℤ} (h : (m * 2 ^ e : ℚ) < 2 ^ (1023 : ℤ)) :
    IsNearest ((if s then -1 else 1) * (m * 2 ^ e)) (ofScaled s m e) := by
  rw [← scaled_eq_quotient m e] at h ⊢
  rw [ofScaled_eq_ofRatio]
  exact signed_isNearest s (one_shiftLeft_pos _) h

/-! ## Integers -/

theorem ofInt_eq_ofRatio (i : ℤ) : ofInt i = ofRatio (i < 0) i.natAbs 1 := by
  rw [ofInt, ofScaled_eq_ofRatio]
  rfl

/-- Integers below the last power of two are rounded to the nearest number. -/
theorem ofInt_isNearest {i : ℤ} (h : |(i : ℚ)| < 2 ^ (1023 : ℤ)) : IsNearest i (ofInt i) := by
  have hlt : ((i.natAbs : ℕ) / (1 : ℕ) : ℚ) < 2 ^ (1023 : ℤ) := by
    rwa [Nat.cast_one, div_one, Nat.cast_natAbs, Int.cast_abs]
  have hnearest := signed_isNearest (decide (i < 0)) one_pos hlt
  rwa [Nat.cast_one, div_one, ← cast_signed, signed_natAbs, ← ofInt_eq_ofRatio] at hnearest

theorem IsNearest.toRat_eq {z r : Number} (h : IsNearest z.toRat r) (hz : z.isFinite = true) :
    r.toRat = z.toRat := by
  have hle := h.le z hz
  rw [sub_self, abs_zero] at hle
  exact sub_eq_zero.mp (abs_nonpos_iff.mp hle)

/-! ## Rounding and order -/

/-- What is not above a number is not rounded beyond it. -/
theorem IsNearest.toRat_le {q : ℚ} {r z : Number} (h : IsNearest q r) (hz : z.isFinite = true)
    (hq : q ≤ z.toRat) : r.toRat ≤ z.toRat := by
  have hle := h.le z hz
  rw [abs_of_nonneg (sub_nonneg.mpr hq)] at hle
  linarith [le_abs_self (r.toRat - q)]

/-- What is not below a number is not rounded beyond it. -/
theorem IsNearest.le_toRat {q : ℚ} {r z : Number} (h : IsNearest q r) (hz : z.isFinite = true)
    (hq : z.toRat ≤ q) : z.toRat ≤ r.toRat := by
  have hle := h.le z hz
  rw [abs_of_nonpos (sub_nonpos.mpr hq)] at hle
  linarith [neg_abs_le (r.toRat - q)]

theorem eq_of_toRat_eq {x y : Number} (hx : x.isFinite = true) (hy : y.isFinite = true)
    (hsign : x.negative = y.negative) (hvalue : x.toRat = y.toRat) : x = y := by
  cases x with
  | nan | infinite => cases hx
  | finite s m e h =>
    cases y with
    | nan | infinite => cases hy
    | finite t n f h' =>
      obtain rfl : s = t := hsign
      have hmagnitude : (m * 2 ^ e : ℚ) = n * 2 ^ f := by
        cases s <;> simpa [toRat] using hvalue
      have hquotient := scaled_eq_quotient m e
      rw [← ofRatio_eq_finite s h (one_shiftLeft_pos _) hquotient,
        ← ofRatio_eq_finite s h' (one_shiftLeft_pos _) (hquotient.trans hmagnitude)]

end Number

end KLang
