import KLang.Proofs.Number.Integers
import KLang.Value.Operation
import Mathlib.Data.Int.Bitwise
import Mathlib.Data.Int.ModEq

/-!
# Bitwise operations are those of two's complement

An integer has infinitely many bits, of which from some place on all are equal. The words of numbers
are the first 64 of them, so an operation that acts on each bit may be done before the integer is cut
to a word or after it.

* `Bitwise.onBits`, `Bitwise.onIntegers`: the operations on bits and on integers.
* `FitsIn`: integers that a number of bits and a sign are enough for, by their range and by their bits.
* `wrap64_onIntegers`: cutting before the operation and after it.
* `bitwise_on_words`: what the operators on numbers give.
-/

namespace KLang

/-! ## Operations on integers -/

/-- The operation on two bits. -/
def Bitwise.onBits : Bitwise → Bool → Bool → Bool
  | .and => (· && ·)
  | .or => (· || ·)
  | .xor => (· ^^ ·)

/-- The operation on two integers in two's complement without end. -/
def Bitwise.onIntegers : Bitwise → ℤ → ℤ → ℤ
  | .and => Int.land
  | .or => Int.lor
  | .xor => Int.xor

/-- The operation on two words. -/
def Bitwise.onWords : Bitwise → BitVec 64 → BitVec 64 → BitVec 64
  | .and => (· &&& ·)
  | .or => (· ||| ·)
  | .xor => (· ^^^ ·)

theorem Bitwise.testBit_onIntegers (op : Bitwise) (i j : ℤ) (k : ℕ) :
    (op.onIntegers i j).testBit k = op.onBits (i.testBit k) (j.testBit k) := by
  cases op with
  | and => exact Int.testBit_land i j k
  | or => exact Int.testBit_lor i j k
  | xor => exact Int.testBit_lxor i j k

theorem Bitwise.getLsbD_onWords (op : Bitwise) (u v : BitVec 64) (k : ℕ) :
    (op.onWords u v).getLsbD k = op.onBits (u.getLsbD k) (v.getLsbD k) := by
  cases op with
  | and => exact BitVec.getLsbD_and
  | or => exact BitVec.getLsbD_or
  | xor => exact BitVec.getLsbD_xor

theorem Bitwise.onBits_comm (op : Bitwise) (a b : Bool) : op.onBits a b = op.onBits b a := by
  cases op <;> cases a <;> cases b <;> rfl

/-! ## Integers by their bits -/

/-- The integer has a sign and otherwise no more than `w` bits. -/
def FitsIn (w : ℕ) (i : ℤ) : Prop := -2 ^ w ≤ i ∧ i < 2 ^ w

theorem fitsIn_natCast {w n : ℕ} : FitsIn w n ↔ n < 2 ^ w := by
  have hpos : (0 : ℤ) < 2 ^ w := by positivity
  rw [FitsIn]
  constructor
  · rintro ⟨-, h⟩
    exact_mod_cast h
  · intro h
    have h : (n : ℤ) < 2 ^ w := by exact_mod_cast h
    omega

theorem fitsIn_negSucc {w n : ℕ} : FitsIn w (Int.negSucc n) ↔ n < 2 ^ w := by
  rw [← fitsIn_natCast, FitsIn, FitsIn, Int.negSucc_eq]
  omega

theorem testBit_eq_false {w n k : ℕ} (h : n < 2 ^ w) (hk : w ≤ k) : n.testBit k = false :=
  Nat.testBit_lt_two_pow (h.trans_le (Nat.pow_le_pow_right (by decide) hk))

theorem exists_testBit_eq_false (n w : ℕ) : ∃ k, w ≤ k ∧ n.testBit k = false :=
  ⟨max w n, le_max_left _ _, testBit_eq_false Nat.lt_two_pow_self (le_max_right _ _)⟩

theorem lt_two_pow_iff {w n : ℕ} : n < 2 ^ w ↔ ∀ k, w ≤ k → n.testBit k = false :=
  ⟨fun h _ => testBit_eq_false h, Nat.lt_pow_two_of_testBit n⟩

theorem fitsIn_iff {w : ℕ} {i : ℤ} : FitsIn w i ↔ ∃ b, ∀ k, w ≤ k → i.testBit k = b := by
  cases i with
  | ofNat n =>
    rw [Int.ofNat_eq_natCast, fitsIn_natCast, lt_two_pow_iff]
    constructor
    · intro h
      exact ⟨false, h⟩
    · rintro ⟨b, h⟩
      obtain ⟨k, hk, hfalse⟩ := exists_testBit_eq_false n w
      obtain rfl : false = b := hfalse.symm.trans (h k hk)
      exact h
  | negSucc n =>
    have hbit (k : ℕ) : (Int.negSucc n).testBit k = !n.testBit k := rfl
    rw [fitsIn_negSucc, lt_two_pow_iff]
    simp only [hbit]
    constructor
    · intro h
      exact ⟨true, fun k hk => by rw [h k hk]; rfl⟩
    · rintro ⟨b, h⟩
      obtain ⟨k, hk, hfalse⟩ := exists_testBit_eq_false n w
      have hb := h k hk
      rw [hfalse] at hb
      obtain rfl : true = b := hb
      simpa using h

/-- The operations need no more bits than their operands. -/
theorem FitsIn.onIntegers {w : ℕ} {i j : ℤ} (op : Bitwise) (hi : FitsIn w i) (hj : FitsIn w j) :
    FitsIn w (op.onIntegers i j) := by
  obtain ⟨a, ha⟩ := fitsIn_iff.mp hi
  obtain ⟨b, hb⟩ := fitsIn_iff.mp hj
  refine fitsIn_iff.mpr ⟨op.onBits a b, fun k hk => ?_⟩
  rw [op.testBit_onIntegers, ha k hk, hb k hk]

/-! ## Words -/

theorem getLsbD_ofInt {w k : ℕ} (hk : k < w) (i : ℤ) :
    (BitVec.ofInt w i).getLsbD k = i.testBit k := by
  cases i with
  | ofNat n =>
    rw [Int.ofNat_eq_natCast, BitVec.ofInt_natCast, BitVec.getLsbD_ofNat, decide_eq_true hk]
    exact Bool.true_and _
  | negSucc n =>
    rw [BitVec.ofInt_negSucc_eq_not_ofNat, BitVec.getLsbD_not, BitVec.getLsbD_ofNat,
      decide_eq_true hk, Bool.true_and, Bool.true_and]
    rfl

theorem Bitwise.ofInt_onIntegers (op : Bitwise) (i j : ℤ) :
    BitVec.ofInt 64 (op.onIntegers i j) = op.onWords (.ofInt 64 i) (.ofInt 64 j) := by
  refine BitVec.eq_of_getLsbD_eq fun k hk => ?_
  rw [getLsbD_ofInt hk, op.getLsbD_onWords, getLsbD_ofInt hk, getLsbD_ofInt hk,
    op.testBit_onIntegers]

theorem toInt_ofInt_wrap64 (i : ℤ) : (BitVec.ofInt 64 i).toInt = wrap64 i := BitVec.toInt_ofInt i

theorem ofInt_wrap64 (i : ℤ) : BitVec.ofInt 64 (wrap64 i) = BitVec.ofInt 64 i := by
  rw [← toInt_ofInt_wrap64, BitVec.ofInt_toInt]

theorem testBit_wrap64 {k : ℕ} (hk : k < 64) (i : ℤ) : (wrap64 i).testBit k = i.testBit k := by
  rw [← getLsbD_ofInt hk, ofInt_wrap64, getLsbD_ofInt hk]

theorem fitsIn_wrap64 (i : ℤ) : FitsIn 63 (wrap64 i) := by
  unfold FitsIn wrap64
  have hle := Int.le_bmod (x := i) (m := 2 ^ (64 : ℕ)) (by decide)
  have hlt := Int.bmod_lt (x := i) (m := 2 ^ (64 : ℕ)) (by decide)
  omega

theorem wrap64_of_fitsIn {i : ℤ} (h : FitsIn 63 i) : wrap64 i = i := by
  unfold FitsIn at h
  exact Int.bmod_eq_of_le_mul_two (by omega) (by omega)

theorem wrap64_modEq (i : ℤ) : wrap64 i ≡ i [ZMOD 2 ^ 64] := Int.bmod_emod

theorem eq_of_modEq {i j : ℤ} (hi : FitsIn 63 i) (hj : FitsIn 63 j) (h : i ≡ j [ZMOD 2 ^ 64]) :
    i = j := by
  unfold FitsIn at hi hj
  unfold Int.ModEq at h
  omega

/-- Integers may be wrapped before the operation or behind it. -/
theorem wrap64_onIntegers (op : Bitwise) (i j : ℤ) :
    wrap64 (op.onIntegers i j) = op.onIntegers (wrap64 i) (wrap64 j) := by
  have hfits := FitsIn.onIntegers op (fitsIn_wrap64 i) (fitsIn_wrap64 j)
  calc wrap64 (op.onIntegers i j) = (op.onWords (.ofInt 64 i) (.ofInt 64 j)).toInt := by
        rw [← toInt_ofInt_wrap64, op.ofInt_onIntegers]
    _ = (BitVec.ofInt 64 (op.onIntegers (wrap64 i) (wrap64 j))).toInt := by
        rw [op.ofInt_onIntegers, ofInt_wrap64, ofInt_wrap64]
    _ = op.onIntegers (wrap64 i) (wrap64 j) := by
        rw [toInt_ofInt_wrap64, wrap64_of_fitsIn hfits]

/-! ## Numbers -/

theorem Number.toInt64?_of_isFinite {x : Number} (h : x.isFinite = true) :
    x.toInt64? = .ok (wrap64 (truncation x.toRat)) := by
  rw [toInt64?, toInt?_of_isFinite h]
  rfl

theorem Bitwise.apply_eq (op : Bitwise) {x y : Number} (hx : x.isFinite = true)
    (hy : y.isFinite = true) : op.apply x y =
      .ofInt (op.onIntegers (wrap64 (truncation x.toRat)) (wrap64 (truncation y.toRat))) := by
  have hword : op.apply x y = .ofWord (op.onWords x.word y.word) := by cases op <;> rfl
  rw [hword, Number.ofWord, Number.word, Number.word, Number.truncate_of_isFinite hx,
    Number.truncate_of_isFinite hy, ← op.ofInt_onIntegers, toInt_ofInt_wrap64, wrap64_onIntegers]

theorem Bitwise.onIntegers_comm (op : Bitwise) {i j : ℤ} (hi : FitsIn 63 i) (hj : FitsIn 63 j) :
    op.onIntegers i j = op.onIntegers j i := by
  have hwords : BitVec.ofInt 64 (op.onIntegers i j) = .ofInt 64 (op.onIntegers j i) := by
    refine BitVec.eq_of_getLsbD_eq fun k hk => ?_
    rw [getLsbD_ofInt hk, getLsbD_ofInt hk, op.testBit_onIntegers, op.testBit_onIntegers,
      op.onBits_comm]
  rw [← wrap64_of_fitsIn (hi.onIntegers op hj), ← wrap64_of_fitsIn (hj.onIntegers op hi),
    ← toInt_ofInt_wrap64, ← toInt_ofInt_wrap64, hwords]

theorem FitsIn.hasNumber {i : ℤ} (h : FitsIn 53 i) : HasNumber i := by
  unfold FitsIn at h
  exact .of_natAbs_le (by omega)

theorem FitsIn.isNearest {i : ℤ} (h : FitsIn 63 i) : Number.IsNearest i (.ofInt i) := by
  have hle : |(i : ℚ)| ≤ 2 ^ (63 : ℤ) := abs_le.mpr ⟨by exact_mod_cast h.1, by exact_mod_cast h.2.le⟩
  exact Number.ofInt_isNearest (hle.trans_lt (two_zpow_lt.mpr (by decide)))

/-- **Bitwise operators are those of 64-bit two's complement.** The integer part of a finite number is
wrapped into the one integer of the signed 64-bit range that is equal to it modulo `2 ^ 64`. An
operator gives the number nearest to the operation on the wrapped integer parts, which is that on the
integer parts in two's complement without end, wrapped afterwards: it acts on each of the first 64
bits. The operands may be exchanged, and integer parts below `2 ^ 53` give an exact result. -/
theorem bitwise_on_words (op : Bitwise) {x y : Number} (hx : x.isFinite = true)
    (hy : y.isFinite = true) :
    ∃ i j r, x.toInt64? = .ok i ∧ y.toInt64? = .ok j ∧
      (FitsIn 63 i ∧ i ≡ truncation x.toRat [ZMOD 2 ^ 64] ∧
        ∀ i', FitsIn 63 i' → i' ≡ truncation x.toRat [ZMOD 2 ^ 64] → i' = i) ∧
      (FitsIn 63 (op.onIntegers i j) ∧ op.onIntegers i j ≡
        op.onIntegers (truncation x.toRat) (truncation y.toRat) [ZMOD 2 ^ 64]) ∧
      (∀ k < 64, (op.onIntegers i j).testBit k =
        op.onBits ((truncation x.toRat).testBit k) ((truncation y.toRat).testBit k)) ∧
      BinaryOperator.apply (.bitwise op) (.number x) (.number y) = .ok (.number r) ∧
      BinaryOperator.apply (.bitwise op) (.number y) (.number x) = .ok (.number r) ∧
      r.IsNearest (op.onIntegers i j) ∧
      (|truncation x.toRat| < 2 ^ 53 → |truncation y.toRat| < 2 ^ 53 →
        r.toRat = op.onIntegers (truncation x.toRat) (truncation y.toRat)) := by
  generalize htx : truncation x.toRat = i
  generalize hty : truncation y.toRat = j
  have happly (a b : Number) (ha : a.isFinite = true) (hb : b.isFinite = true) :
      BinaryOperator.apply (.bitwise op) (.number a) (.number b) = .ok (.number
        (.ofInt (op.onIntegers (wrap64 (truncation a.toRat)) (wrap64 (truncation b.toRat))))) := by
    rw [← op.apply_eq ha hb, BinaryOperator.apply]
    · simp [Value.number?, BinaryOperator.onNumbers, ha, hb, Functor.map, Except.map]
    · nofun
  have hfits := (fitsIn_wrap64 i).onIntegers op (fitsIn_wrap64 j)
  have hnearest := hfits.isNearest
  have hxy := happly x y hx hy
  have hyx := happly y x hy hx
  rw [htx, hty] at hxy hyx
  rw [op.onIntegers_comm (fitsIn_wrap64 j) (fitsIn_wrap64 i)] at hyx
  refine ⟨wrap64 i, wrap64 j, _, htx ▸ Number.toInt64?_of_isFinite hx,
    hty ▸ Number.toInt64?_of_isFinite hy, ⟨fitsIn_wrap64 i, wrap64_modEq i, fun i' hi' heq => ?_⟩,
    ⟨hfits, ?_⟩, fun k hk => ?_, hxy, hyx, hnearest, fun hi hj => ?_⟩
  · exact eq_of_modEq hi' (fitsIn_wrap64 i) (heq.trans (wrap64_modEq i).symm)
  · rw [← wrap64_onIntegers]
    exact wrap64_modEq _
  · rw [← wrap64_onIntegers, testBit_wrap64 hk, op.testBit_onIntegers]
  · have hshort (z : ℤ) (h : |z| < 2 ^ 53) : FitsIn 53 z := ⟨(neg_lt_of_abs_lt h).le, lt_of_abs_lt h⟩
    have hexact := (hshort i hi).onIntegers op (hshort j hj)
    have hwrap : op.onIntegers (wrap64 i) (wrap64 j) = op.onIntegers i j := by
      rw [← wrap64_onIntegers]
      unfold FitsIn at hexact
      exact wrap64_of_fitsIn ⟨by omega, by omega⟩
    obtain ⟨z, hz, hvalue⟩ := hexact.hasNumber
    rw [hwrap, ← hvalue] at hnearest ⊢
    exact hnearest.toRat_eq hz

theorem bitwise_on_words_negative :
    let minusOne : Number := .finite true (2 ^ (52 : ℕ)) (-52) (by decide)
    let twoAndAHalf : Number := .finite false (5 * 2 ^ (50 : ℕ)) (-51) (by decide)
    minusOne.isFinite = true ∧ twoAndAHalf.isFinite = true ∧
      ∃ r, BinaryOperator.apply (.bitwise .xor) (.number minusOne) (.number twoAndAHalf) =
        .ok (.number r) ∧ r.toRat = -3 := by
  intro minusOne twoAndAHalf
  have hx : truncation minusOne.toRat = -1 := by
    have hvalue : minusOne.toRat = -1 := by norm_num [minusOne, Number.toRat]
    rw [hvalue, truncation_neg, truncation_of_nonneg zero_le_one, Int.floor_one]
  have hy : truncation twoAndAHalf.toRat = 2 := by
    have hvalue : twoAndAHalf.toRat = 5 / 2 := by norm_num [twoAndAHalf, Number.toRat]
    rw [hvalue, truncation_of_nonneg (by norm_num)]
    norm_num
  obtain ⟨i, j, r, -, -, -, -, -, happly, -, -, hexact⟩ :=
    bitwise_on_words .xor (x := minusOne) (y := twoAndAHalf) rfl rfl
  refine ⟨rfl, rfl, r, happly, ?_⟩
  rw [hx, hy] at hexact
  exact_mod_cast hexact (by norm_num) (by norm_num)

end KLang
