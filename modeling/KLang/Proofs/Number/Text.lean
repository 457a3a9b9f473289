import KLang.Number.Text
import KLang.Proofs.Lexing.Spelling
import KLang.Proofs.Number.Decimal

/-!
# Reading what was written

* `IsNumberText`: the forms in which magnitudes are written.
* `Decimal.value_write`: a decimal that was written is read with the same value.
* `Number.isNumberText_magnitudeChars`: the magnitude of a finite number is written in one of these
  forms, and `Number.ofDecimal_magnitudeChars`: it is read as that number.
* `Number.ofText?_text`: the text of a finite number is read as the number.
-/

namespace KLang

variable {ds fs : List Char} {c : Char}

/-! ## Digits -/

theorem isDigits_digitChars (n : ℕ) : IsDigits (digitChars n) :=
  ⟨Nat.toDigits_ne_nil, fun _ => Nat.isDigit_of_mem_toDigits (by omega) (by omega)⟩

theorem isDigit_zeros (n : ℕ) : ∀ d ∈ zeros n, d.isDigit = true := by
  intro d hd
  rw [List.eq_of_mem_replicate hd]
  decide

theorem IsDigits.append (h : IsDigits ds) (hf : ∀ d ∈ fs, d.isDigit = true) : IsDigits (ds ++ fs) :=
  ⟨by simp [h.1], forall_mem_append h.2 hf⟩

theorem IsDigits.zeros_append (h : IsDigits ds) (n : ℕ) : IsDigits (zeros n ++ ds) :=
  ⟨by simp [h.1], forall_mem_append (isDigit_zeros n) h.2⟩

namespace Numeral

theorem ofDigits_append (ds fs : List Char) :
    ofDigits (ds ++ fs) = 10 ^ fs.length * ofDigits ds + ofDigits fs := by
  rw [ofDigits, Nat.ofDigitChars_append, Nat.ofDigitChars_eq_ofDigitChars_zero]
  rfl

theorem ofDigits_digitChars (n : ℕ) : ofDigits (digitChars n) = n := Nat.ofDigitChars_ten_toDigits

theorem ofDigits_zeros (n : ℕ) : ofDigits (zeros n) = 0 :=
  Nat.ofDigitChars_replicate_zero.trans (Nat.mul_zero _)

theorem ofDigits_zeros_append (n : ℕ) (ds : List Char) : ofDigits (zeros n ++ ds) = ofDigits ds := by
  rw [ofDigits_append, ofDigits_zeros, Nat.mul_zero, Nat.zero_add]

/-! ## Literals -/

theorem not_isExponentMark_of_isDigit (h : c.isDigit = true) : isExponentMark c = false := by
  rw [← Bool.not_eq_true, isExponentMark_iff]
  rintro (rfl | rfl) <;> exact absurd h (by decide)

theorem decimal_of_mantissa {m : List Char} (hm : ∀ c ∈ m, isExponentMark c = false) :
    decimal m = ⟨ofDigits (m.takeWhile (· != '.') ++ (m.dropWhile (· != '.')).drop 1),
      -(((m.dropWhile (· != '.')).drop 1).length : ℤ)⟩ := by
  have hspan : ∀ c ∈ m, (!isExponentMark c) = true := fun c hc => by rw [hm c hc]; rfl
  simp only [decimal, List.takeWhile_eq_self_iff.mpr hspan, List.dropWhile_eq_nil_iff.mpr hspan]
  rw [Decimal.mk.injEq]
  exact ⟨rfl, by simp [exponent, ofDigits]⟩

theorem decimal_of_digits (h : ∀ d ∈ ds, d.isDigit = true) : decimal ds = ⟨ofDigits ds, 0⟩ := by
  have hspan : ∀ d ∈ ds, (d != '.') = true := fun d hd =>
    bne_iff_ne.mpr (ne_of_isDigit (h d hd) (by decide))
  rw [decimal_of_mantissa fun c hc => not_isExponentMark_of_isDigit (h c hc),
    List.takeWhile_eq_self_iff.mpr hspan, List.dropWhile_eq_nil_iff.mpr hspan]
  simp

theorem decimal_of_point (h : ∀ d ∈ ds, d.isDigit = true) (hf : ∀ d ∈ fs, d.isDigit = true) :
    decimal (ds ++ '.' :: fs) = ⟨ofDigits (ds ++ fs), -(fs.length : ℤ)⟩ := by
  have hspan : ∀ d ∈ ds, (d != '.') = true := fun d hd =>
    bne_iff_ne.mpr (ne_of_isDigit (h d hd) (by decide))
  have hmarks : ∀ c ∈ ds ++ '.' :: fs, isExponentMark c = false := by
    simp only [List.mem_append, List.mem_cons]
    rintro c (hc | rfl | hc)
    · exact not_isExponentMark_of_isDigit (h c hc)
    · rfl
    · exact not_isExponentMark_of_isDigit (hf c hc)
  obtain ⟨htake, hdrop⟩ := span_append hspan ('.' :: fs)
  rw [decimal_of_mantissa hmarks, htake, hdrop]
  simp

theorem decimal_of_exponent {m : List Char} (hm : ∀ c ∈ m, isExponentMark c = false)
    (x : List Char) :
    decimal (m ++ 'e' :: x) = ⟨(decimal m).digits, exponent x + (decimal m).exponent⟩ := by
  have hspan : ∀ c ∈ m, (!isExponentMark c) = true := fun c hc => by rw [hm c hc]; rfl
  obtain ⟨htake, hdrop⟩ := span_append hspan ('e' :: x)
  rw [decimal_of_mantissa hm]
  have hmark : (!isExponentMark 'e') = false := rfl
  simp only [decimal, htake, hdrop, List.takeWhile_cons, List.dropWhile_cons, hmark]
  simp [Int.sub_eq_add_neg]

end Numeral

/-! ## The forms of a number -/

/-- One digit, or one digit with a point and more digits behind it. -/
inductive IsLeading : List Char → Prop
  | single {d : Char} (hd : d.isDigit = true) : IsLeading [d]
  | pointed {d : Char} {fs : List Char} (hd : d.isDigit = true) (hf : IsDigits fs) :
      IsLeading (d :: '.' :: fs)

/-- Digits, digits with a point among them, or one digit before the point and an exponent that has a
sign and two or three digits. -/
inductive IsNumberText : List Char → Prop
  | whole {ds : List Char} (h : IsDigits ds) : IsNumberText ds
  | pointed {ds fs : List Char} (h : IsDigits ds) (hf : IsDigits fs) : IsNumberText (ds ++ '.' :: fs)
  | scientific {m place : List Char} {sign : Char} (hm : IsLeading m)
      (hsign : sign = '+' ∨ sign = '-') (hplace : IsDigits place)
      (hlength : place.length = 2 ∨ place.length = 3) : IsNumberText (m ++ 'e' :: sign :: place)

theorem IsLeading.isMantissa {m : List Char} (h : IsLeading m) : IsMantissa m := by
  cases h with
  | single hd => exact .whole ⟨by simp, by simpa using hd⟩
  | @pointed d fs hd hf =>
    have hd' : IsDigits [d] := ⟨by simp, by simpa using hd⟩
    exact .pointed hd' hf.2

theorem IsLeading.not_mark {m : List Char} (h : IsLeading m) :
    ∀ c ∈ m, Numeral.isExponentMark c = false := by
  cases h with
  | single hd => simpa using Numeral.not_isExponentMark_of_isDigit hd
  | pointed hd hf =>
    simp only [List.forall_mem_cons]
    exact ⟨Numeral.not_isExponentMark_of_isDigit hd, rfl, fun c hc =>
      Numeral.not_isExponentMark_of_isDigit (hf.2 c hc)⟩

theorem IsNumberText.isDecimal {u : List Char} (h : IsNumberText u) : IsDecimal u := by
  cases h with
  | whole h => exact List.append_nil u ▸ .mk (.whole h) .absent
  | pointed h hf => exact List.append_nil (_ ++ _) ▸ .mk (.pointed h hf.2) .absent
  | @scientific m place sign hm hsign hplace hlength =>
    have hsign' : [sign] = [] ∨ [sign] = ['+'] ∨ [sign] = ['-'] := by simpa using hsign
    exact .mk hm.isMantissa (.given (.inl rfl) hsign' hplace)

theorem IsNumberText.exists_cons {u : List Char} (h : IsNumberText u) :
    ∃ d ds, u = d :: ds ∧ d.isDigit = true := by
  cases h with
  | whole h =>
    obtain ⟨d, ds, rfl⟩ := List.exists_cons_of_ne_nil h.1
    exact ⟨d, ds, rfl, h.2 d List.mem_cons_self⟩
  | pointed h =>
    obtain ⟨d, ds, rfl⟩ := List.exists_cons_of_ne_nil h.1
    exact ⟨d, _, rfl, h.2 d List.mem_cons_self⟩
  | scientific hm =>
    cases hm with
    | single hd => exact ⟨_, _, rfl, hd⟩
    | pointed hd => exact ⟨_, _, rfl, hd⟩

/-! ## Writing a decimal -/

namespace Decimal

open Numeral

theorem value_bounds {d : Decimal} (h : 0 < d.digits) :
    (10 : ℚ) ^ d.lead ≤ d.value ∧ d.value < 10 ^ (d.lead + 1) := by
  obtain ⟨n, hn⟩ : ∃ n, (digitChars d.digits).length = n + 1 :=
    ⟨_, (Nat.succ_pred_eq_of_pos (List.length_pos_iff.mpr (isDigits_digitChars _).1)).symm⟩
  have hlow : 10 ^ n ≤ d.digits := by
    rcases Nat.eq_zero_or_pos n with rfl | hpos
    · exact h
    · refine Nat.not_lt.mp fun hlt => ?_
      have := (Nat.length_toDigits_le_iff (by omega) hpos).mpr hlt
      unfold digitChars at hn
      omega
  have hhigh : d.digits < 10 ^ (n + 1) :=
    (Nat.length_toDigits_le_iff (by omega) (by omega)).mp hn.le
  have hlead : d.lead = n + d.exponent := by
    rw [lead, hn]
    omega
  rw [value, hlead, Int.add_right_comm, zpow_add₀ ten_ne_zero, zpow_add₀ ten_ne_zero]
  constructor
  · exact mul_le_mul_of_nonneg_right (by exact_mod_cast hlow) (ten_zpow_pos _).le
  · exact mul_lt_mul_of_pos_right (by exact_mod_cast hhigh) (ten_zpow_pos _)

theorem natAbs_lead_lt {d : Decimal} (hfinite : (Number.ofDecimal false d).isFinite = true)
    (hzero : Number.ofDecimal false d ≠ .zero false) : d.lead.natAbs < 1000 := by
  have hdigits : 0 < d.digits := by
    refine Nat.pos_of_ne_zero fun h => hzero ?_
    rw [Number.ofDecimal, if_pos h]
  obtain ⟨hlow, hhigh⟩ := value_bounds hdigits
  have hle : d.lead < 342 := by
    refine Int.not_le.mp fun hle => ?_
    have hvalue : (2 : ℚ) ^ (1024 : ℤ) ≤ d.value :=
      ((two_zpow_le.mpr (by omega)).trans (two_zpow_le_ten (by omega))).trans hlow
    rw [Number.ofDecimal_of_value_le false hvalue] at hfinite
    cases hfinite
  have hge : -360 < d.lead := by
    refine Int.not_le.mp fun hle => ?_
    have hvalue : d.value < 2 ^ (-1075 : ℤ) :=
      hhigh.trans_le ((ten_zpow_le_two (by omega)).trans (two_zpow_le.mpr (by omega)))
    exact hzero (Number.ofDecimal_of_value_lt false hvalue)
  omega

/-! ### Plain notation -/

theorem plain_cases (d : Decimal) :
    (0 ≤ d.exponent ∧ d.plain = digitChars d.digits ++ zeros d.exponent.toNat) ∨
      ∃ ds fs, IsDigits ds ∧ IsDigits fs ∧ d.plain = ds ++ '.' :: fs ∧ ofDigits (ds ++ fs) = d.digits ∧
        -(fs.length : ℤ) = d.exponent := by
  have hdigits := isDigits_digitChars d.digits
  have hlength := List.length_pos_iff.mpr hdigits.1
  unfold plain
  dsimp only
  split
  · rename_i h
    exact .inl ⟨h, rfl⟩
  split
  · rename_i h
    refine .inr ⟨['0'], _, ⟨by simp, by simp⟩, hdigits.zeros_append _, rfl, ?_, ?_⟩
    · rw [← List.append_assoc]
      exact (ofDigits_zeros_append (_ + 1) _).trans (ofDigits_digitChars _)
    · simp only [zeros, List.length_append, List.length_replicate]
      omega
  · rename_i hneg hpoint
    refine .inr ⟨_, _, ⟨?_, fun c hc => hdigits.2 c (List.mem_of_mem_take hc)⟩,
      ⟨?_, fun c hc => hdigits.2 c (List.mem_of_mem_drop hc)⟩, rfl, ?_, ?_⟩
    · rw [← List.length_pos_iff, List.length_take]
      omega
    · rw [← List.length_pos_iff, List.length_drop]
      omega
    · rw [List.take_append_drop, ofDigits_digitChars]
    · rw [List.length_drop]
      omega

theorem isNumberText_plain (d : Decimal) : IsNumberText d.plain := by
  obtain ⟨-, h⟩ | ⟨ds, fs, hds, hfs, h, -⟩ := d.plain_cases
  · rw [h]
    exact .whole ((isDigits_digitChars _).append (isDigit_zeros _))
  · rw [h]
    exact .pointed hds hfs

theorem value_plain (d : Decimal) : (decimal d.plain).value = d.value := by
  obtain ⟨hle, h⟩ | ⟨ds, fs, hds, hfs, h, hdigits, hexponent⟩ := d.plain_cases
  · obtain ⟨n, hn⟩ := Int.eq_ofNat_of_zero_le hle
    rw [h, decimal_of_digits (forall_mem_append (isDigits_digitChars _).2 (isDigit_zeros _)),
      ofDigits_append, ofDigits_digitChars, ofDigits_zeros, value, value, hn]
    simp [zeros, mul_comm]
  · rw [h, decimal_of_point hds.2 hfs.2, hdigits, hexponent]

/-! ### Notation with an exponent -/

theorem leading_digits (ds : List Char) : IsDigits ds →
    ∃ m, (match ds with | c :: c' :: cs => c :: '.' :: c' :: cs | cs => cs) = m ∧ IsLeading m ∧
      decimal m = ⟨ofDigits ds, -((ds.length - 1 : ℕ) : ℤ)⟩ := by
  intro h
  match ds with
  | [] => exact absurd rfl h.1
  | [c] => exact ⟨[c], rfl, .single (h.2 c List.mem_cons_self), decimal_of_digits h.2⟩
  | c :: c' :: cs =>
    have hc : ∀ d ∈ [c], d.isDigit = true := by simpa using h.2 c List.mem_cons_self
    have hcs : IsDigits (c' :: cs) := ⟨nofun, fun d hd => h.2 d (List.mem_cons_of_mem c hd)⟩
    exact ⟨_, rfl, .pointed (h.2 c List.mem_cons_self) hcs, decimal_of_point hc hcs.2⟩

theorem scientific_cases (width : ℕ) (d : Decimal) :
    ∃ m place sign, d.scientific width = m ++ 'e' :: sign :: place ∧ IsLeading m ∧
      decimal m = ⟨d.digits, d.exponent - d.lead⟩ ∧
      place = zeros (width - (digitChars d.lead.natAbs).length) ++ digitChars d.lead.natAbs ∧
      sign = if d.lead < 0 then '-' else '+' := by
  obtain ⟨m, hm, hleading, hdecimal⟩ := leading_digits _ (isDigits_digitChars d.digits)
  refine ⟨m, _, _, ?_, hleading, ?_, rfl, rfl⟩
  · rw [← hm, scientific, List.append_assoc]
    rfl
  · rw [hdecimal, ofDigits_digitChars, lead, sub_add_cancel_left]

theorem length_place {n : ℕ} (h : n < 1000) :
    (zeros (2 - (digitChars n).length) ++ digitChars n).length = 2 ∨
      (zeros (2 - (digitChars n).length) ++ digitChars n).length = 3 := by
  have hle : (digitChars n).length ≤ 3 := (Nat.length_toDigits_le_iff (by omega) (by omega)).mpr h
  have hpos := List.length_pos_iff.mpr (isDigits_digitChars n).1
  simp only [zeros, List.length_append, List.length_replicate]
  omega

theorem isNumberText_scientific {d : Decimal} (h : d.lead.natAbs < 1000) :
    IsNumberText (d.scientific 2) := by
  obtain ⟨m, place, sign, hd, hm, -, hplace, hsign⟩ := d.scientific_cases 2
  rw [hd]
  refine .scientific hm ?_ ?_ ?_
  · rw [hsign]
    split
    · exact .inr rfl
    · exact .inl rfl
  · rw [hplace]
    exact (isDigits_digitChars _).zeros_append _
  · rw [hplace]
    exact length_place h

theorem value_scientific (width : ℕ) (d : Decimal) :
    (decimal (d.scientific width)).value = d.value := by
  obtain ⟨m, place, sign, hd, hm, hdecimal, hplace, hsign⟩ := d.scientific_cases width
  have hexponent : Numeral.exponent (sign :: place) = d.lead := by
    have hdigits : ofDigits place = d.lead.natAbs := by
      rw [hplace, ofDigits_zeros_append, ofDigits_digitChars]
    rw [hsign]
    split <;> rw [Numeral.exponent, hdigits] <;> omega
  rw [hd, decimal_of_exponent hm.not_mark, hexponent, hdecimal, Int.add_comm, Int.sub_add_cancel]

/-- A decimal that was written is read with the same value. -/
theorem value_write (layout : Layout) (d : Decimal) :
    (decimal (d.write layout)).value = d.value := by
  unfold write
  split
  · exact d.value_plain
  · exact d.value_scientific _

theorem isNumberText_write {d : Decimal} (h : d.lead.natAbs < 1000) :
    IsNumberText (d.write .standard) := by
  unfold write
  split
  · exact d.isNumberText_plain
  · exact isNumberText_scientific h

end Decimal

/-! ## Writing a number -/

namespace Number

/-- The digits of a magnitude, behind which there is no sign. -/
def magnitudeChars (x : Number) : List Char := x.shortest.write .standard

theorem chars_of_isFinite {x : Number} (h : x.isFinite = true) :
    x.chars = (if x.negative then ['-'] else []) ++ x.magnitudeChars := by
  cases x with
  | nan | infinite => cases h
  | finite => rfl

/-- The text of a magnitude has one of the forms of a number. -/
theorem isNumberText_magnitudeChars {x : Number} (h : x.isFinite = true) :
    IsNumberText x.magnitudeChars := by
  refine Decimal.isNumberText_write ?_
  cases x with
  | nan | infinite => cases h
  | finite s m e hc =>
    have hread : ofDecimal false (shortest (.finite s m e hc)) = .finite false m e hc := by
      rw [← withSign_ofDecimal s]
      exact congrArg (withSign false) (ofDecimal_shortest h)
    by_cases hm : m = 0
    · subst hm
      show (⟨0, 0⟩ : Decimal).lead.natAbs < 1000
      decide
    · refine Decimal.natAbs_lead_lt (by rw [hread]; rfl) fun hzero => hm ?_
      rw [hread] at hzero
      exact (Number.finite.inj hzero).2.1

/-- The text of a magnitude is read as the magnitude. -/
theorem ofDecimal_magnitudeChars (s : Bool) {x : Number} (h : x.isFinite = true) :
    ofDecimal s (Numeral.decimal x.magnitudeChars) = x.withSign s := by
  rw [magnitudeChars, ofDecimal_congr s (x.shortest.value_write .standard),
    ← withSign_ofDecimal x.negative, ofDecimal_shortest h]

/-! ## Reading a number -/

theorem decimalSpan?_of_isDecimal_self {u : List Char} (h : IsDecimal u) :
    Numeral.decimalSpan? u = some (u, []) := by
  obtain ⟨more, rest, hread⟩ := Numeral.decimalSpan?_of_isDecimal h []
  have hsplit := Numeral.decimalSpan?_eq hread
  rw [List.append_nil] at hread hsplit
  rw [List.append_assoc, List.append_right_eq_self, List.append_eq_nil_iff] at hsplit
  obtain ⟨rfl, rfl⟩ := hsplit
  rw [hread, List.append_nil]

theorem toLower_of_isDigit (h : c.isDigit = true) : c.toLower = c := by
  unfold Char.toLower
  exact dif_neg fun hupper => not_isUpper_of_isDigit h (decide_eq_true hupper)

theorem ofUnsigned?_of_isNumberText {u : List Char} (h : IsNumberText u) (s : Bool) :
    ofUnsigned? s u = some (ofDecimal s (Numeral.decimal u)) := by
  obtain ⟨d, ds, hu, hd⟩ := h.exists_cons
  have hfirst (c : Char) (cs : List Char) (hc : c.isDigit = false) : u.map Char.toLower ≠ c :: cs := by
    rw [hu, List.map_cons, toLower_of_isDigit hd]
    intro heq
    rw [(List.cons.inj heq).1, hc] at hd
    cases hd
  have hinf : u.map Char.toLower ∉ infinitySpellings := by
    simp only [infinitySpellings, List.mem_cons, List.not_mem_nil, or_false, not_or]
    exact ⟨hfirst _ _ rfl, hfirst _ _ rfl⟩
  rw [ofUnsigned?, if_neg hinf, if_neg (hfirst _ _ rfl), decimalSpan?_of_isDecimal_self h.isDecimal]

theorem ofChars?_of_isDigit (h : c.isDigit = true) (cs : List Char) :
    ofChars? (c :: cs) = ofUnsigned? false (c :: cs) := by
  unfold ofChars?
  split
  · rename_i heq
    exact absurd (List.cons.inj heq).1 (ne_of_isDigit h rfl)
  · rename_i heq
    exact absurd (List.cons.inj heq).1 (ne_of_isDigit h rfl)
  · rfl

/-- Every number is read back from its text. -/
theorem ofText?_text (x : Number) : ofText? x.text = some x := by
  cases x with
  | nan => decide
  | infinite s => cases s <;> decide
  | finite s m e hc =>
    have h : (finite s m e hc).isFinite = true := rfl
    have hu := isNumberText_magnitudeChars h
    have hread := ofUnsigned?_of_isNumberText hu s
    rw [ofDecimal_magnitudeChars s h] at hread
    rw [ofText?, text, String.toList_ofList, chars_of_isFinite h]
    obtain ⟨d, ds, hcons, hd⟩ := hu.exists_cons
    cases s with
    | true => exact hread
    | false =>
      rw [hcons] at hread
      rw [hcons]
      exact (ofChars?_of_isDigit hd ds).trans hread

end Number

end KLang
