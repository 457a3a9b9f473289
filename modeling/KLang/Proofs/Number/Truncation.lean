import KLang.Proofs.Number.Quotient
import Mathlib.Data.Rat.Floor

/-!
# Integer parts

* `Number.toRat`: the quantity that a finite number stands for.
* `signed_natAbs`, `Number.toRat_finite`: integers and quantities as magnitudes with a sign.
* `truncation`: a quantity without its fraction.
* `Number.toInt?_eq_ok`: exactly the finite numbers have an integer part, and it is the truncation
  of the quantity.
-/

namespace KLang

/-- The quantity without its fraction: the integer next to it toward zero. -/
def truncation (q : ℚ) : ℤ := if q < 0 then ⌈q⌉ else ⌊q⌋

theorem truncation_of_nonneg {q : ℚ} (h : 0 ≤ q) : truncation q = ⌊q⌋ := if_neg (not_lt.mpr h)

theorem truncation_neg (q : ℚ) : truncation (-q) = -truncation q := by
  unfold truncation
  obtain h | rfl | h := lt_trichotomy q 0
  · rw [if_neg (by linarith), if_pos h, Int.floor_neg]
  · simp
  · rw [if_pos (by linarith), if_neg (by linarith), Int.ceil_neg]

theorem cast_scaledFloor (m : ℕ) (e : ℤ) : (scaledFloor m e : ℤ) = ⌊(m * 2 ^ e : ℚ)⌋ := by
  have hquotient : (m * 2 ^ e : ℚ) = (m <<< e.toNat : ℕ) / (2 ^ (-e).toNat : ℕ) := by
    have hpos : (2 : ℚ) ^ (-e).toNat ≠ 0 := pow_ne_zero _ two_ne_zero
    rw [cast_shiftLeft, pow_toNat two_ne_zero e, Nat.cast_pow, Nat.cast_ofNat, eq_div_iff hpos,
      mul_assoc]
  rw [hquotient, Rat.floor_natCast_div_natCast, scaledFloor, Nat.shiftRight_eq_div_pow]
  exact Int.natCast_ediv _ _

theorem cast_signed (s : Bool) (n : ℕ) : (signed s n : ℚ) = (if s then -1 else 1) * n := by
  cases s <;> simp [signed]

/-- An integer is its magnitude with its sign. -/
theorem signed_natAbs (i : ℤ) : signed (i < 0) i.natAbs = i := by
  unfold signed
  split
  · rename_i h
    have := of_decide_eq_true h
    omega
  · rename_i h
    have := of_decide_eq_false (Bool.eq_false_of_not_eq_true h)
    omega

namespace Number

/-- The quantity that a finite number stands for; `0` for all others. -/
def toRat : Number → ℚ
  | .finite s m e _ => if s then -(m * 2 ^ e) else m * 2 ^ e
  | _ => 0

/-- A quantity is its magnitude with the sign of the number. -/
theorem toRat_finite (s : Bool) {m : ℕ} {e : ℤ} (h : Canonical m e) :
    (finite s m e h).toRat = (if s then -1 else 1) * (m * 2 ^ e) := by
  cases s <;> simp [toRat]

theorem isZero_iff {x : Number} (hx : x.isFinite = true) : x.isZero = true ↔ x.toRat = 0 := by
  cases x with
  | nan | infinite => cases hx
  | finite s m e h =>
    have hpow : (2 : ℚ) ^ e ≠ 0 := (two_zpow_pos e).ne'
    rw [isZero, beq_iff_eq, toRat_finite]
    cases s <;> simp [hpow]

theorem signed_scaledFloor (s : Bool) {m : ℕ} {e : ℤ} (h : Canonical m e) :
    signed s (scaledFloor m e) = truncation (finite s m e h).toRat := by
  have hmagnitude : (scaledFloor m e : ℤ) = truncation (m * 2 ^ e) := by
    rw [truncation_of_nonneg (by positivity), cast_scaledFloor]
  cases s with
  | false => exact hmagnitude
  | true => exact (congrArg Neg.neg hmagnitude).trans (truncation_neg _).symm

/-- Exactly the finite numbers have an integer part. -/
theorem toInt?_eq_ok {x : Number} {i : ℤ} :
    x.toInt? = .ok i ↔ x.isFinite = true ∧ i = truncation x.toRat := by
  cases x with
  | nan | infinite => simp [toInt?, isFinite]
  | finite s m e h =>
    rw [toInt?, signed_scaledFloor s h]
    simp [isFinite, eq_comm]

theorem toInt?_of_isFinite {x : Number} (h : x.isFinite = true) :
    x.toInt? = .ok (truncation x.toRat) :=
  toInt?_eq_ok.mpr ⟨h, rfl⟩

theorem truncate_of_isFinite {x : Number} (h : x.isFinite = true) :
    x.truncate = truncation x.toRat := by
  rw [truncate, toInt?_of_isFinite h]

end Number

end KLang
