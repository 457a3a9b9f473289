import KLang.Proofs.Number.Bitwise
import KLang.Proofs.Number.Order
import KLang.Proofs.Number.Remainder

/-!
# Words that are rounded

What a bitwise operator computes is an integer of the signed 64-bit range, but its value is the number
nearest to that. Half a place in front of the end of the range, this is the end itself, which is no
integer of the range any more and is wrapped to the other end when it is used again. Elsewhere the
value is a whole number of the range, and the operators take it back as it is.

* `Bitwise.unit`: the operand that an operation only wraps with.
* `toRat_ofInt_eq_iff`: which integers are rounded to the end of the range.
* `wrap64_truncation_le`: words of numbers are not that close to it, so no bits that two of them have
  in common are.
* `Number.FeedsBack`: what the operators make of a number on its own.
* `bitwise_stays_in_range`: where the value of an operator is an integer of the range.
-/

namespace KLang

open Number

/-! ## Operations on integers -/

/-- The integer that an operation changes no bit with. -/
def Bitwise.unit : Bitwise → ℤ
  | .and => -1
  | .or | .xor => 0

theorem Bitwise.wrap64_onIntegers_unit (op : Bitwise) (i : ℤ) :
    wrap64 (op.onIntegers i op.unit) = wrap64 i := by
  have hword (u : BitVec 64) : op.onWords u (.ofInt 64 op.unit) = u := by
    cases op with
    | and => exact BitVec.and_allOnes
    | or => exact BitVec.or_zero
    | xor => exact BitVec.xor_zero
  rw [← toInt_ofInt_wrap64, op.ofInt_onIntegers, hword, toInt_ofInt_wrap64]

theorem ldiff_le (m n : ℕ) : m.ldiff n ≤ m := by
  have hand : m.ldiff n &&& m = m.ldiff n := by
    refine Nat.eq_of_testBit_eq fun k => ?_
    simp only [Nat.testBit_and, Nat.testBit_ldiff]
    cases m.testBit k <;> simp
  exact hand ▸ Nat.and_le_right

theorem land_le {i : ℤ} (hi : 0 ≤ i) (j : ℤ) : Bitwise.and.onIntegers i j ≤ i := by
  obtain ⟨m, rfl⟩ := Int.eq_ofNat_of_zero_le hi
  cases j with
  | ofNat n => exact Int.ofNat_le.mpr Nat.and_le_left
  | negSucc n => exact Int.ofNat_le.mpr (ldiff_le m n)

theorem land_neg {i j : ℤ} (hi : i < 0) (hj : j < 0) : Bitwise.and.onIntegers i j < 0 := by
  obtain ⟨m, rfl⟩ := Int.eq_negSucc_of_lt_zero hi
  obtain ⟨n, rfl⟩ := Int.eq_negSucc_of_lt_zero hj
  exact Int.negSucc_lt_zero _

theorem land_le_of_le {i j b : ℤ} (hfits : FitsIn 63 i) (hfits' : FitsIn 63 j) (hb : 0 ≤ b)
    (hi : i ≤ b) (hj : j ≤ b) : Bitwise.and.onIntegers i j ≤ b := by
  rcases lt_or_ge i 0 with hineg | hipos
  · rcases lt_or_ge j 0 with hjneg | hjpos
    · exact (land_neg hineg hjneg).le.trans hb
    · rw [Bitwise.and.onIntegers_comm hfits hfits']
      exact (land_le hjpos i).trans hj
  · exact (land_le hipos j).trans hi

/-! ## Integers that are rounded -/

namespace FitsIn

variable {i k : ℤ}

theorem toRat_ofInt_le (h : FitsIn 63 i) (hk : HasNumber k) (hle : i ≤ k) :
    (ofInt i).toRat ≤ k := by
  obtain ⟨z, hz, hvalue⟩ := hk
  exact hvalue ▸ h.isNearest.toRat_le hz (by rw [hvalue]; exact_mod_cast hle)

theorem le_toRat_ofInt (h : FitsIn 63 i) (hk : HasNumber k) (hle : k ≤ i) :
    k ≤ (ofInt i).toRat := by
  obtain ⟨z, hz, hvalue⟩ := hk
  exact hvalue ▸ h.isNearest.le_toRat hz (by rw [hvalue]; exact_mod_cast hle)

theorem toRat_ofInt_neg_iff (h : FitsIn 63 i) : (ofInt i).toRat < 0 ↔ i < 0 := by
  have hminusOne : FitsIn 53 (-1) := ⟨by decide, by decide⟩
  have hzero : FitsIn 53 0 := ⟨by decide, by decide⟩
  rcases lt_or_ge i 0 with hi | hi
  · have hle := h.toRat_ofInt_le hminusOne.hasNumber (by omega)
    push_cast at hle
    exact iff_of_true (by linarith) hi
  · have hle := h.le_toRat_ofInt hzero.hasNumber hi
    push_cast at hle
    exact iff_of_false (by linarith) (by omega)

end FitsIn

theorem FitsIn.rounds {i : ℤ} (h : FitsIn 63 i) :
    ∃ k : ℤ, (ofInt i).toRat = k ∧ -2 ^ 63 ≤ k ∧ k ≤ 2 ^ 63 := by
  have htop : HasNumber (2 ^ 63) := .two_pow (by decide)
  have hhigh := h.toRat_ofInt_le htop h.2.le
  have hlow := h.le_toRat_ofInt htop.neg h.1
  obtain ⟨k, hk⟩ : ∃ k : ℤ, (ofInt i).toRat = k := by
    by_cases hshort : FitsIn 53 i
    · exact ⟨i, hshort.hasNumber.toRat_ofInt⟩
    · -- a long integer is rounded to a number that is too large for a fraction
      have hlong : HasNumber (2 ^ 53) := .two_pow (by decide)
      refine exists_intCast_of_le h.isNearest.isFinite ?_
      unfold FitsIn at hshort
      rw [le_abs]
      rcases lt_or_ge i 0 with hi | hi
      · have hle := h.toRat_ofInt_le hlong.neg (by omega)
        push_cast at hle
        exact .inr (by linarith)
      · have hle := h.le_toRat_ofInt hlong (by omega)
        push_cast at hle
        exact .inl (by linarith)
  rw [hk] at hhigh hlow
  exact ⟨k, hk, by exact_mod_cast hlow, by exact_mod_cast hhigh⟩

/-! ## The end of the range -/

theorem toRat_ofInt_of_le {n : ℕ} (hlow : 2 ^ (62 : ℕ) ≤ n) (hhigh : n < 2 ^ (63 : ℕ)) :
    (ofInt n).toRat = nearest n 1024 * 1024 := by
  have hlog : n.log2 = 62 := by
    have hle : 62 ≤ n.log2 := (Nat.le_log2 (by omega)).mpr hlow
    have hlt : n.log2 < 63 := (Nat.log2_lt (by omega)).mpr hhigh
    omega
  have hsettle : ofInt n = settle false (nearest n 1024) 10 := by
    have hnonneg : decide ((n : ℤ) < 0) = false := decide_eq_false (by omega)
    rw [ofInt, hnonneg, Int.natAbs_natCast, ofScaled, if_neg (by omega), hlog]
    rfl
  have hfits : FitsIn 63 n := fitsIn_natCast.mpr hhigh
  have hfinite := hfits.isNearest.isFinite
  rw [hsettle] at hfinite ⊢
  rw [(settle_of_isFinite hfinite).1]
  norm_num

/-- From half a place in front of the end of the range on, integers are rounded to the end. -/
theorem toRat_ofInt_eq_iff {i : ℤ} (h : FitsIn 63 i) :
    (ofInt i).toRat = 2 ^ 63 ↔ 2 ^ 63 - 512 ≤ i := by
  rcases lt_or_ge i (2 ^ 62) with hlt | hge
  · have hle := h.toRat_ofInt_le (.two_pow (n := 62) (by decide)) hlt.le
    refine iff_of_false (fun heq => ?_) (by omega)
    rw [heq] at hle
    norm_num at hle
  · obtain ⟨n, rfl⟩ := Int.eq_ofNat_of_zero_le (show 0 ≤ i by omega)
    have hlow : 2 ^ (62 : ℕ) ≤ n := by omega
    have hhigh : n < 2 ^ (63 : ℕ) := fitsIn_natCast.mp h
    have hmiddle : nearest n 1024 < 2 ^ (53 : ℕ) - 1 + 1 ↔
        n < (2 ^ (53 : ℕ) - 1) * 1024 + 512 :=
      nearest_lt_iff (d := 512) (q := 2 ^ (53 : ℕ) - 1) (by decide) (by decide) (by omega)
    have hle := nearest_le n 1024
    have htop : nearest n 1024 = 2 ^ (53 : ℕ) ↔ 2 ^ 63 - 512 ≤ (n : ℤ) := by omega
    rw [toRat_ofInt_of_le hlow hhigh, ← htop]
    constructor
    · intro heq
      have hcast : ((nearest n 1024 * 1024 : ℕ) : ℚ) = (2 ^ 63 : ℕ) := by
        push_cast
        exact heq
      have hnat := Nat.cast_injective hcast
      omega
    · intro heq
      rw [heq]
      norm_num

/-- The words of numbers end a whole place in front of the end of the range. -/
theorem wrap64_truncation_le {x : Number} (hx : x.isFinite = true) :
    wrap64 (truncation x.toRat) ≤ 2 ^ 63 - 1024 := by
  cases x with
  | nan | infinite => cases hx
  | finite s m e h =>
    have hshort := h.1
    rcases lt_or_ge e 11 with hlt | hge
    · -- the magnitude is in the range as it is
      have hmagnitude : (m * 2 ^ e : ℚ) ≤ ((2 ^ 63 - 1024 : ℤ) : ℚ) := by
        calc (m * 2 ^ e : ℚ) ≤ ((2 ^ (53 : ℕ) - 1 : ℕ) : ℚ) * 2 ^ (10 : ℤ) := by
              refine mul_le_mul (Nat.cast_le.mpr (by omega)) (two_zpow_le.mpr (by omega))
                (two_zpow_pos e).le (Nat.cast_nonneg _)
          _ = ((2 ^ 63 - 1024 : ℤ) : ℚ) := by norm_num
      have hfloor : ⌊(m * 2 ^ e : ℚ)⌋ ≤ 2 ^ 63 - 1024 :=
        Int.floor_le_iff.mpr (hmagnitude.trans_lt (lt_add_one _))
      have hnonneg : 0 ≤ ⌊(m * 2 ^ e : ℚ)⌋ := Int.floor_nonneg.mpr (by positivity)
      rw [← signed_scaledFloor, signed, cast_scaledFloor]
      split
      · rw [wrap64_of_fitsIn ⟨by omega, by omega⟩]
        omega
      · rw [wrap64_of_fitsIn ⟨by omega, by omega⟩]
        exact hfloor
    · -- a larger number is a multiple of `2048`, and so is what it is wrapped to
      obtain ⟨k, hk⟩ : ∃ k : ℤ, (finite s m e h).toRat = ((k * 2048 : ℤ) : ℚ) := by
        obtain ⟨t, ht⟩ := Int.eq_ofNat_of_zero_le (show 0 ≤ e - 11 by omega)
        refine ⟨signed s (m * 2 ^ t), ?_⟩
        obtain rfl : e = t + 11 := by omega
        rw [toRat_finite, zpow_add₀ two_ne_zero]
        cases s <;> simp [signed] <;> ring
      rw [hk, truncation_intCast]
      have hmod := wrap64_modEq (k * 2048)
      have hfits := fitsIn_wrap64 (k * 2048)
      unfold Int.ModEq at hmod
      unfold FitsIn at hfits
      omega

/-! ## Using a value again -/

/-- The operators, on the number and the operand that they only wrap with, give the second number. -/
structure Number.FeedsBack (r s : Number) : Prop where
  or : BinaryOperator.apply (.bitwise .or) (.number r) (.number 0) = .ok (.number s)
  and : BinaryOperator.apply (.bitwise .and) (.number r) (.number (-1)) = .ok (.number s)
  xor : BinaryOperator.apply (.bitwise .xor) (.number r) (.number 0) = .ok (.number s)

theorem Bitwise.apply_numbers (op : Bitwise) {x y : Number} (hx : x.isFinite = true)
    (hy : y.isFinite = true) : BinaryOperator.apply (.bitwise op) (.number x) (.number y) =
      .ok (.number (.ofInt
        (op.onIntegers (wrap64 (truncation x.toRat)) (wrap64 (truncation y.toRat))))) := by
  rw [← op.apply_eq hx hy, BinaryOperator.apply_numbers, BinaryOperator.onNumbers, hx, hy]
  rfl

theorem Number.feedsBack {r : Number} (hr : r.isFinite = true) :
    r.FeedsBack (.ofInt (wrap64 (truncation r.toRat))) := by
  have happly (op : Bitwise) : BinaryOperator.apply (.bitwise op) (.number r)
      (.number (.ofInt op.unit)) = .ok (.number (.ofInt (wrap64 (truncation r.toRat)))) := by
    have hshort : FitsIn 53 op.unit := by cases op <;> exact ⟨by decide, by decide⟩
    rw [op.apply_numbers hr hshort.hasNumber.isFinite_ofInt, hshort.hasNumber.toRat_ofInt,
      truncation_intCast, ← wrap64_onIntegers, op.wrap64_onIntegers_unit]
  exact ⟨happly .or, happly .and, happly .xor⟩

theorem ofInt_of_toRat {x : Number} (hx : x.isFinite = true) {k : ℤ} (hk : x.toRat = k)
    (hfits : FitsIn 63 k) (hsign : x.negative = decide (k < 0)) : ofInt k = x := by
  have hnearest := hfits.isNearest
  rw [← hk] at hnearest
  exact eq_of_toRat_eq hnearest.isFinite hx ((negative_ofScaled _ _ _).trans hsign.symm)
    (hnearest.toRat_eq hx)

/-- **Bitwise operators stay in the signed 64-bit range, up to its end.** The value of an operator on
two finite numbers is a whole number and not below the range. As long as what the operator computes
is not within half a place of the end of the range, the value is in the range, is wrapped to itself,
and the operators give it back with the operands `0` and `-1` that change no bit. Otherwise, which
does not happen for the bits that two numbers have in common, the value is `2 ^ 63`, and is wrapped to
`-2 ^ 63` and so given back as that. -/
theorem bitwise_stays_in_range (op : Bitwise) {x y : Number} (hx : x.isFinite = true)
    (hy : y.isFinite = true) :
    ∃ i j r k, x.toInt64? = .ok i ∧ y.toInt64? = .ok j ∧
      BinaryOperator.apply (.bitwise op) (.number x) (.number y) = .ok (.number r) ∧
      r.isFinite = true ∧ r.toRat = (k : ℤ) ∧ -2 ^ 63 ≤ k ∧
      (op.onIntegers i j < 2 ^ 63 - 512 → k < 2 ^ 63 ∧ r.toInt64? = .ok k ∧ r.FeedsBack r) ∧
      (2 ^ 63 - 512 ≤ op.onIntegers i j → op ≠ .and ∧ k = 2 ^ 63 ∧ r.toInt64? = .ok (-2 ^ 63) ∧
        ∃ s, r.FeedsBack s ∧ s.toRat = -2 ^ 63) := by
  have hxtop := wrap64_truncation_le hx
  have hytop := wrap64_truncation_le hy
  have happly := op.apply_numbers hx hy
  have hi := toInt64?_of_isFinite hx
  have hj := toInt64?_of_isFinite hy
  have hifits := fitsIn_wrap64 (truncation x.toRat)
  have hjfits := fitsIn_wrap64 (truncation y.toRat)
  generalize wrap64 (truncation x.toRat) = i at *
  generalize wrap64 (truncation y.toRat) = j at *
  have hfits := hifits.onIntegers op hjfits
  have hfinite := hfits.isNearest.isFinite
  obtain ⟨k, hk, hlow, hhigh⟩ := hfits.rounds
  have htop := toRat_ofInt_eq_iff hfits
  have hneg := hfits.toRat_ofInt_neg_iff
  have hword := toInt64?_of_isFinite hfinite
  have hback := feedsBack hfinite
  rw [hk] at htop hneg
  rw [hk, truncation_intCast] at hword hback
  refine ⟨i, j, _, k, hi, hj, happly, hfinite, hk, hlow, fun hlt => ?_, fun hge => ?_⟩
  · have hne : k ≠ 2 ^ 63 := by
      rintro rfl
      exact absurd (htop.mp (by norm_num)) (not_le.mpr hlt)
    have hkfits : FitsIn 63 k := ⟨hlow, lt_of_le_of_ne hhigh hne⟩
    have hsign : (ofInt (op.onIntegers i j)).negative = decide (k < 0) := by
      rw [ofInt, negative_ofScaled, decide_eq_decide, ← hneg, Int.cast_lt_zero]
    rw [wrap64_of_fitsIn hkfits] at hword hback
    rw [ofInt_of_toRat hfinite hk hkfits hsign] at hback
    exact ⟨hkfits.2, hword, hback⟩
  · obtain rfl : k = 2 ^ 63 := by exact_mod_cast htop.mpr hge
    refine ⟨?_, rfl, hword, _, hback, ?_⟩
    · rintro rfl
      have hle := land_le_of_le hifits hjfits (by decide) hxtop hytop
      omega
    · have hbottom : HasNumber (-2 ^ 63) := (HasNumber.two_pow (n := 63) (by decide)).neg
      exact_mod_cast hbottom.toRat_ofInt

theorem bitwise_stays_in_range_below_end :
    let top : Number := .finite false (2 ^ (53 : ℕ) - 1) 10 (by decide)
    let low : Number := .finite false (511 * 2 ^ (44 : ℕ)) (-44) (by decide)
    top.isFinite = true ∧ low.isFinite = true ∧
      BinaryOperator.apply (.bitwise .or) (.number top) (.number low) = .ok (.number top) ∧
      top.FeedsBack top := by
  intro top low
  obtain ⟨i, j, r, k, hi, hj, happly, -, -, -, hbelow, -⟩ :=
    bitwise_stays_in_range .or (x := top) (y := low) rfl rfl
  have hior : BinaryOperator.apply (.bitwise .or) (.number top) (.number low) =
      .ok (.number top) := by decide +kernel
  obtain rfl : i = 2 ^ 63 - 1024 := Except.ok.inj (hi.symm.trans (by decide +kernel))
  obtain rfl : j = 511 := Except.ok.inj (hj.symm.trans (by decide +kernel))
  obtain rfl : r = top := Value.number.inj (Except.ok.inj (happly.symm.trans hior))
  exact ⟨rfl, rfl, hior, (hbelow (by decide +kernel)).2.2⟩

/-- An operator leaves the range: the value is its end, and does not come back. -/
theorem bitwise_or_reaches_end :
    let top : Number := .finite false (2 ^ (53 : ℕ) - 1) 10 (by decide)
    let low : Number := .finite false (1023 * 2 ^ (43 : ℕ)) (-43) (by decide)
    let beyond : Number := .finite false (2 ^ (52 : ℕ)) 11 (by decide)
    top.isFinite = true ∧ low.isFinite = true ∧
      BinaryOperator.apply (.bitwise .or) (.number top) (.number low) = .ok (.number beyond) ∧
      beyond.toRat = 2 ^ 63 ∧ beyond.toInt64? = .ok (-2 ^ 63) ∧
      BinaryOperator.apply (.bitwise .or) (.number beyond) (.number 0) ≠ .ok (.number beyond) := by
  intro top low beyond
  refine ⟨rfl, rfl, by decide +kernel, ?_, by decide +kernel, by decide +kernel⟩
  norm_num [beyond, toRat]

end KLang
