import KLang.Number.Rounding

/-!
# Where the format ends

* `nearest_lt_iff`: which quotients round to a number below an even one.
* `Number.isFinite_ofNat`: the natural numbers whose nearest number is not infinite.
-/

namespace KLang

/-- In front of an even multiple, rounding goes up from the middle on. -/
theorem nearest_lt_iff {n d q : Nat} (hd : 0 < d) (hq : q % 2 = 1) (hn : n < (q + 1) * (2 * d)) :
    nearest n (2 * d) < q + 1 ↔ n < q * (2 * d) + d := by
  have hdiv := Nat.div_add_mod n (2 * d)
  have hmod := Nat.mod_lt n (show 0 < 2 * d by omega)
  have hle : n / (2 * d) < q + 1 := (Nat.div_lt_iff_lt_mul (by omega)).mpr hn
  rw [Nat.mul_comm] at hdiv
  unfold nearest
  rcases Nat.lt_or_eq_of_le (Nat.le_of_lt_succ hle) with hlt | heq
  · have hbelow : (n / (2 * d) + 1) * (2 * d) ≤ q * (2 * d) := Nat.mul_le_mul_right _ hlt
    rw [Nat.add_mul] at hbelow
    dsimp only
    split <;> try split
    all_goals omega
  · rw [heq] at hdiv ⊢
    dsimp only
    split <;> try split
    all_goals omega

theorem le_nearest (n d : Nat) : n / d ≤ nearest n d := by
  unfold nearest
  dsimp only
  split <;> try split
  all_goals omega

theorem nearest_le (n d : Nat) : nearest n d ≤ n / d + 1 := by
  unfold nearest
  dsimp only
  split <;> try split
  all_goals omega

namespace Number

theorem isFinite_pack {m : Nat} {e : Int} (s : Bool) : (pack s m e).isFinite = true ↔ Canonical m e := by
  unfold pack
  split <;> simp_all [isFinite]

theorem isFinite_settle {m : Nat} {e : Int} (s : Bool) (hm : 2 ^ (52 : Nat) ≤ m)
    (hm' : m ≤ 2 ^ (53 : Nat)) (he : -1074 ≤ e) :
    (settle s m e).isFinite = true ↔ e ≤ 970 ∨ (e = 971 ∧ m < 2 ^ (53 : Nat)) := by
  unfold settle
  split
  · rename_i h
    rw [isFinite_pack, Canonical]
    omega
  · rename_i h
    rw [isFinite_pack, Canonical]
    omega

/-- A natural number rounds beyond the format from the middle between its largest number and the
next power of two on. -/
theorem isFinite_ofNat (n : Nat) :
    (ofNat n).isFinite = true ↔ n < (2 ^ (54 : Nat) - 1) * 2 ^ (970 : Nat) := by
  have hpos (k : Nat) : 0 < 2 ^ k := Nat.two_pow_pos k
  have hadd (a b : Nat) : 2 ^ a * 2 ^ b = 2 ^ (a + b) := (Nat.pow_add 2 a b).symm
  have hmono {a b : Nat} (h : a ≤ b) : 2 ^ a ≤ 2 ^ b := Nat.pow_le_pow_right (by decide) h
  rcases Nat.eq_zero_or_pos n with rfl | hn
  · exact iff_of_true rfl (Nat.mul_pos (by decide) (hpos _))
  have hlow : 2 ^ n.log2 ≤ n := Nat.log2_self_le (by omega)
  have hhigh : n < 2 ^ (n.log2 + 1) := Nat.lt_log2_self
  have hunit : unitExponent (n.log2 + 0) = (n.log2 : Int) - 52 := by
    unfold unitExponent
    omega
  have hsmall {k : Nat} (h : n < 2 ^ k) (hk : k ≤ 1023) :
      n < (2 ^ (54 : Nat) - 1) * 2 ^ (970 : Nat) := by
    calc n < 2 ^ k := h
      _ ≤ 2 ^ (53 + 970) := hmono hk
      _ = 2 ^ (53 : Nat) * 2 ^ (970 : Nat) := (hadd 53 970).symm
      _ ≤ (2 ^ (54 : Nat) - 1) * 2 ^ (970 : Nat) := Nat.mul_le_mul_right _ (by decide)
  rw [ofNat, ofScaled, if_neg (by omega)]
  dsimp only
  rw [hunit]
  rcases Nat.le_total n.log2 52 with hshort | hlong
  · -- a short number is scaled up and keeps all its digits
    have hshift : (0 - ((n.log2 : Int) - 52)).toNat = 52 - n.log2 := by omega
    have hnone : ((n.log2 : Int) - 52 - 0).toNat = 0 := by omega
    have hexact (m : Nat) : nearest m 1 = m := by simp [nearest, Nat.mod_one]
    have hlow' : 2 ^ (52 : Nat) ≤ n * 2 ^ (52 - n.log2) := by
      calc 2 ^ (52 : Nat) = 2 ^ n.log2 * 2 ^ (52 - n.log2) := by
            rw [hadd, Nat.add_sub_cancel' hshort]
        _ ≤ n * 2 ^ (52 - n.log2) := Nat.mul_le_mul_right _ hlow
    have hhigh' : n * 2 ^ (52 - n.log2) ≤ 2 ^ (53 : Nat) := by
      calc n * 2 ^ (52 - n.log2) ≤ 2 ^ (n.log2 + 1) * 2 ^ (52 - n.log2) :=
            Nat.mul_le_mul_right _ (Nat.le_of_lt hhigh)
        _ = 2 ^ (53 : Nat) := by
            rw [hadd]
            congr 1
            omega
    rw [hshift, hnone, Nat.shiftLeft_eq, Nat.shiftLeft_zero, hexact,
      isFinite_settle false hlow' hhigh' (by omega)]
    exact iff_of_true (by omega) (hsmall hhigh (by omega))
  · -- a long number is rounded at the last of its first fifty-three digits
    have hshift : (0 - ((n.log2 : Int) - 52)).toNat = 0 := by omega
    have hplace : ((n.log2 : Int) - 52 - 0).toNat = n.log2 - 52 := by omega
    have hlow' : 2 ^ (52 : Nat) ≤ n / 2 ^ (n.log2 - 52) := by
      rw [Nat.le_div_iff_mul_le (hpos _), hadd, Nat.add_sub_cancel' hlong]
      exact hlow
    have hhigh' : n / 2 ^ (n.log2 - 52) < 2 ^ (53 : Nat) := by
      rw [Nat.div_lt_iff_lt_mul (hpos _), hadd]
      exact Nat.lt_of_lt_of_le hhigh (hmono (by omega))
    have hle := le_nearest n (2 ^ (n.log2 - 52))
    have hge := nearest_le n (2 ^ (n.log2 - 52))
    rw [hshift, hplace, Nat.shiftLeft_zero, Nat.one_shiftLeft,
      isFinite_settle false (by omega) (by omega) (by omega)]
    rcases Nat.lt_trichotomy n.log2 1023 with hlt | heq | hgt
    · exact iff_of_true (by omega) (hsmall hhigh (by omega))
    · -- the last binade, where the middle decides
      have hdouble : 2 ^ (n.log2 - 52) = 2 * 2 ^ (970 : Nat) := by
        rw [heq, ← Nat.pow_succ']
      have hmiddle := nearest_lt_iff (n := n) (q := 2 ^ (53 : Nat) - 1) (hpos 970) (by decide) (by
        rw [← hdouble, Nat.sub_add_cancel (hpos 53), hadd]
        exact Nat.lt_of_lt_of_le hhigh (hmono (by omega)))
      rw [Nat.sub_add_cancel (hpos 53), ← Nat.mul_assoc, ← Nat.succ_mul,
        show Nat.succ ((2 ^ (53 : Nat) - 1) * 2) = 2 ^ (54 : Nat) - 1 by decide] at hmiddle
      rw [hdouble, hmiddle]
      exact ⟨fun h => (h.resolve_left (by omega)).2, fun h => .inr ⟨by omega, h⟩⟩
    · refine iff_of_false (by omega) (Nat.not_lt.mpr ?_)
      calc (2 ^ (54 : Nat) - 1) * 2 ^ (970 : Nat) ≤ 2 ^ (54 : Nat) * 2 ^ (970 : Nat) :=
            Nat.mul_le_mul_right _ (by decide)
        _ = 2 ^ (54 + 970) := hadd 54 970
        _ ≤ 2 ^ n.log2 := hmono hgt
        _ ≤ n := hlow

end Number

end KLang
