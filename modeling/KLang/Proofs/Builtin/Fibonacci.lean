import KLang.Builtin.Math
import KLang.Proofs.Grammar.Word
import KLang.Proofs.Builtin.Dispatch
import KLang.Proofs.Number.Order
import Mathlib.Data.Nat.Fib.Basic

/-!
# Fibonacci numbers are rounded

The builtin function computes the Fibonacci number of the integer part of its argument exactly and
rounds it once. The last index whose Fibonacci number is not rounded to infinity is `1476`, but it is
the argument that is compared with it and not the integer part, so infinity is given too early for the
arguments between `1476` and `1477`.

* `Number.Rounds`: what natural numbers are rounded to, also beyond the format.
* `Number.fibonacciPair_eq`: what the loop holds.
* `Number.fib_lt_bound_iff`: the indices up to which Fibonacci numbers are not rounded to infinity.
* `fibonacci_rounds`: the arguments for which the value is the rounded Fibonacci number.
-/

namespace KLang

namespace Number

/-! ## Natural numbers beyond the format -/

/-- What a natural number is rounded to: the number nearest to it or, from the middle behind the largest
number on, infinity. -/
inductive Rounds (n : ℕ) : Number → Prop
  | within {r : Number} (hn : n < Numeral.bound) (h : r.IsNearest n) : Rounds n r
  | beyond (hn : Numeral.bound ≤ n) : Rounds n (.infinite false)

theorem ofNat_eq_ofRatio (n : ℕ) : ofNat n = ofRatio false n 1 := ofScaled_eq_ofRatio false n 0

theorem settle_of_not_isFinite {s : Bool} {m : ℕ} {e : ℤ} (h : (settle s m e).isFinite = false) :
    settle s m e = .infinite s := by
  have hpack {m : ℕ} {e : ℤ} (h : (pack s m e).isFinite = false) : pack s m e = .infinite s := by
    refine pack_of_not_canonical s fun hcanonical => ?_
    rw [(isFinite_pack s).mpr hcanonical] at h
    cases h
  unfold settle at h ⊢
  split at h
  · rename_i hcarry
    rw [if_pos hcarry, hpack h]
  · rename_i hcarry
    rw [if_neg hcarry, hpack h]

theorem rounds_ofNat (n : ℕ) : Rounds n (ofNat n) := by
  rcases Nat.lt_or_ge n Numeral.bound with hn | hn
  · have hfinite := (isFinite_ofNat n).mpr hn
    rw [ofNat_eq_ofRatio] at hfinite ⊢
    have hnearest := ofRatio_isNearest one_pos hfinite
    rw [Nat.cast_one, div_one] at hnearest
    exact .within hn hnearest
  · have hpos : 0 < n := hn.trans_lt' (by decide +kernel)
    have hinfinite : (ofNat n).isFinite = false :=
      Bool.eq_false_of_not_eq_true ((isFinite_ofNat n).not.mpr (Nat.not_lt.mpr hn))
    rw [ofNat_eq_ofRatio, ofRatio_of_pos false hpos one_pos rfl] at hinfinite ⊢
    rw [settle_of_not_isFinite hinfinite]
    exact .beyond hn

theorem not_rounds_infinite {n : ℕ} (hn : n < Numeral.bound) : ¬Rounds n (.infinite false) := by
  rintro (⟨-, h⟩ | hle)
  · cases h.isFinite
  · exact absurd hn (Nat.not_lt.mpr hle)

/-! ## Fibonacci numbers -/

/-- The loop holds two consecutive Fibonacci numbers. -/
theorem fibonacciPair_eq (n : ℕ) : fibonacciPair n = (n.fib, (n + 1).fib) := by
  induction n with
  | zero => rfl
  | succ n ih => rw [fibonacciPair, ih, Nat.fib_add_two]

theorem fst_fibonacciPair (n : ℕ) : (fibonacciPair n).1 = n.fib := by
  rw [fibonacciPair_eq]

theorem fib_1476_lt_bound : Nat.fib 1476 < Numeral.bound := by
  rw [← fst_fibonacciPair]
  decide +kernel

theorem bound_le_fib_1477 : Numeral.bound ≤ Nat.fib 1477 := by
  rw [← fst_fibonacciPair]
  decide +kernel

/-- The Fibonacci numbers that the format has a number for are those up to the index `1476`. -/
theorem fib_lt_bound_iff {n : ℕ} : n.fib < Numeral.bound ↔ n ≤ 1476 := by
  constructor
  · intro h
    by_contra hn
    exact absurd (bound_le_fib_1477.trans (Nat.fib_mono (Nat.lt_of_not_ge hn))) (Nat.not_le.mpr h)
  · intro h
    exact (Nat.fib_mono h).trans_lt fib_1476_lt_bound

variable {x : Number}

theorem fibonacci_eq (hx : x.isFinite = true) (htwo : 2 ≤ x.toRat) :
    x.fibonacci = .ok (if x.toRat ≤ 1476 then .ofNat (truncation x.toRat).toNat.fib
      else .infinite false) := by
  have hzero : ¬x.lt 0 = true :=
    (lt_ofNat_iff (n := 0) hx (by decide)).not.mpr (by push_cast; linarith)
  have hone : ¬x.le 1 = true :=
    (le_ofNat_iff (n := 1) hx (by decide)).not.mpr (by push_cast; linarith)
  have hcut : Number.lt 1476 x = true ↔ 1476 < x.toRat :=
    ofNat_lt_iff (n := 1476) hx (by decide)
  rw [fibonacci, if_neg hzero, if_neg hone, toInt?_of_isFinite hx]
  simp only [fst_fibonacciPair]
  by_cases h : x.toRat ≤ 1476
  · rw [if_neg (hcut.not.mpr (not_lt.mpr h)), if_pos h]
  · rw [if_pos (hcut.mpr (not_le.mp h)), if_neg h]

theorem truncation_le_1476_iff (htwo : 2 ≤ x.toRat) :
    (truncation x.toRat).toNat ≤ 1476 ↔ x.toRat < 1477 := by
  rw [truncation_of_nonneg (by linarith), Int.toNat_le, ← Int.lt_add_one_iff, Int.floor_lt]
  norm_num

end Number

open Number

theorem callBuiltin_fibonacci (world : World) (l : Option Location) {x : Number}
    (hx : x.isFinite = true) (htwo : 2 ≤ x.toRat) :
    callBuiltin world l (.ofNumber "fibonacci" .double fibonacci) [.number x] =
      pure (.number (if x.toRat ≤ 1476 then .ofNat (truncation x.toRat).toNat.fib
        else .infinite false)) := by
  rw [callBuiltin_ofNumber, fibonacci_eq hx htwo]
  rfl

/-- **Fibonacci numbers are rounded, except in front of the first one that is too large.** For every
finite number from `2` on, the builtin function gives a number. Up to `1476`, the Fibonacci number of
the integer part is not beyond the format; behind `1476`, infinity is given. This is what the Fibonacci
number of the integer part is rounded to, unless the argument is between `1476` and `1477`. -/
theorem fibonacci_rounds (world : World) (l : Option Location) {x : Number}
    (hx : x.isFinite = true) (htwo : 2 ≤ x.toRat) :
    ∃ b r, Library.math.builtins.get? "fibonacci" = some b ∧
      callBuiltin world l b [.number x] = pure (.number r) ∧
      (x.toRat ≤ 1476 → (truncation x.toRat).toNat.fib < Numeral.bound) ∧
      (1476 < x.toRat → r = .infinite false) ∧
      (r.Rounds (truncation x.toRat).toNat.fib ↔ ¬(1476 < x.toRat ∧ x.toRat < 1477)) := by
  have hle := truncation_le_1476_iff htwo
  have hcall := callBuiltin_fibonacci world l hx htwo
  generalize (truncation x.toRat).toNat = n at *
  refine ⟨_, _, rfl, hcall, fun h => ?_, fun h => if_neg (not_le.mpr h), ?_⟩
  · exact fib_lt_bound_iff.mpr (hle.mpr (by linarith))
  by_cases h : x.toRat ≤ 1476
  · rw [if_pos h]
    exact iff_of_true (rounds_ofNat _) fun hcut => absurd h (not_le.mpr hcut.1)
  · rw [if_neg h]
    rcases lt_or_ge x.toRat 1477 with hlt | hge
    · have hwithin : n.fib < Numeral.bound := fib_lt_bound_iff.mpr (hle.mpr hlt)
      exact iff_of_false (not_rounds_infinite hwithin) fun hnot => hnot ⟨not_le.mp h, hlt⟩
    · have hbeyond : Numeral.bound ≤ n.fib :=
        Nat.not_lt.mp (fib_lt_bound_iff.not.mpr (hle.not.mpr hge.not_gt))
      exact iff_of_true (.beyond hbeyond) fun hcut => absurd hcut.2 hge.not_gt

theorem fibonacci_rounds_fraction :
    let x : Number := .finite false (43 * 2 ^ (47 : ℕ)) (-49) (by decide)
    x.isFinite = true ∧ 2 ≤ x.toRat ∧
      ∃ b r, Library.math.builtins.get? "fibonacci" = some b ∧
        callBuiltin default none b [.number x] = pure (.number r) ∧ r.Rounds 55 := by
  intro x
  have hvalue : x.toRat = 43 / 4 := by norm_num [x, toRat]
  have htwo : 2 ≤ x.toRat := by rw [hvalue]; norm_num
  obtain ⟨b, r, hb, hcall, -, -, hrounds⟩ := fibonacci_rounds default none (x := x) rfl htwo
  have hindex : truncation x.toRat = 10 := by
    rw [hvalue, truncation_of_nonneg (by norm_num)]
    norm_num
  rw [hindex, hvalue] at hrounds
  exact ⟨rfl, htwo, b, r, hb, hcall, hrounds.mpr (by norm_num)⟩

/-- Infinity is given too early: the Fibonacci number of the integer part is not rounded to it. -/
theorem fibonacci_cut_off :
    let x : Number := .finite false (2953 * 2 ^ (41 : ℕ)) (-42) (by decide)
    x.isFinite = true ∧ x.toRat = 2953 / 2 ∧ truncation x.toRat = 1476 ∧
      (∃ b, Library.math.builtins.get? "fibonacci" = some b ∧
        callBuiltin default none b [.number x] = pure (.number (.infinite false))) ∧
      Nat.fib 1476 < Numeral.bound ∧ ¬(Number.infinite false).Rounds (Nat.fib 1476) := by
  intro x
  have hvalue : x.toRat = 2953 / 2 := by norm_num [x, toRat]
  have hindex : truncation x.toRat = 1476 := by
    rw [hvalue, truncation_of_nonneg (by norm_num)]
    norm_num
  have htwo : 2 ≤ x.toRat := by rw [hvalue]; norm_num
  have hbehind : ¬x.toRat ≤ 1476 := by rw [hvalue]; norm_num
  have hcall := callBuiltin_fibonacci default none (x := x) rfl htwo
  rw [if_neg hbehind] at hcall
  exact ⟨rfl, hvalue, hindex, ⟨_, rfl, hcall⟩, fib_1476_lt_bound,
    not_rounds_infinite fib_1476_lt_bound⟩

end KLang
