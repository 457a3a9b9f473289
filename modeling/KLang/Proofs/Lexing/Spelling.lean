import KLang.Proofs.Grammar.Word
import KLang.Proofs.Lexing.Scan
import KLang.Proofs.Number.Overflow

/-!
# Scanning a word is reading its spelling

* `Lexeme.scan_sound`: what is scanned at the front of a text is spelled there.
* `Lexeme.scanned_of_spells`: where a word is spelled at the front of a text, that word or a longer one
  is scanned.
* `Spells.unique`: characters spell at most one word.
-/

namespace KLang

variable {u v cs rest : List Char} {c : Char}

/-! ## Characters -/

theorem toNat_le_of_isDigit (h : c.isDigit = true) : c.toNat ≤ 57 := by
  simpa [UInt32.le_iff_toNat_le] using (Bool.and_eq_true_iff.mp h).2

theorem not_isUpper_of_isDigit (h : c.isDigit = true) : ¬ c.isUpper = true := fun hupper => by
  have hle := toNat_le_of_isDigit h
  have hge : 65 ≤ c.toNat := by
    simpa [UInt32.le_iff_toNat_le] using (of_decide_eq_true hupper).1
  omega

theorem isLetter_of_isDigit (h : c.isDigit = true) : isLetter c = false := by
  have hne : c ≠ '_' := by
    rintro rfl
    exact absurd h (by decide)
  have hle := toNat_le_of_isDigit h
  have hlower : ¬ c.isLower = true := fun hlower => by
    have hge : 97 ≤ c.toNat := by
      simpa [UInt32.le_iff_toNat_le] using (Bool.and_eq_true_iff.mp hlower).1
    omega
  refine Bool.eq_false_iff.mpr fun hletter => ?_
  rcases Bool.or_eq_true_iff.mp hletter with halpha | hline
  · exact (Bool.or_eq_true_iff.mp halpha).elim (not_isUpper_of_isDigit h) hlower
  · exact hne (eq_of_beq hline)

theorem ne_of_isDigit (h : c.isDigit = true) {d : Char} (hd : d.isDigit = false) : c ≠ d := by
  rintro rfl
  rw [h] at hd
  cases hd

theorem span_append {p : Char → Bool} (h : ∀ d ∈ u, p d = true) (v : List Char) :
    (u ++ v).takeWhile p = u ++ v.takeWhile p ∧ (u ++ v).dropWhile p = v.dropWhile p :=
  ⟨List.takeWhile_append_of_pos h, List.dropWhile_append_of_pos h⟩

theorem forall_mem_takeWhile (p : Char → Bool) (cs : List Char) : ∀ d ∈ cs.takeWhile p, p d = true :=
  fun _ => List.mem_takeWhile_imp

theorem forall_mem_append {p : Char → Bool} (h : ∀ d ∈ u, p d = true) (h' : ∀ d ∈ v, p d = true) :
    ∀ d ∈ u ++ v, p d = true := by
  intro d hd
  exact (List.mem_append.mp hd).elim (h d) (h' d)

/-! ## Decimal literals -/

namespace Numeral

theorem isExponentMark_iff {c : Char} : isExponentMark c = true ↔ c = 'e' ∨ c = 'E' := by
  simp [isExponentMark]

theorem isDigit_mark {mark : Char} (h : mark = 'e' ∨ mark = 'E') : mark.isDigit = false := by
  rcases h with rfl | rfl <;> rfl

theorem signSpan_of_isDigits {sign ds : List Char}
    (hsign : sign = [] ∨ sign = ['+'] ∨ sign = ['-']) (h : IsDigits ds) (v : List Char) :
    signSpan (sign ++ (ds ++ v)) = (sign, ds ++ v) := by
  obtain ⟨d, ds, rfl⟩ := List.exists_cons_of_ne_nil h.1
  have hd := h.2 d List.mem_cons_self
  rcases hsign with rfl | rfl | rfl
  · unfold signSpan
    split
    · rename_i heq
      cases heq
      exact absurd hd (by decide)
    · rename_i heq
      cases heq
      exact absurd hd (by decide)
    · rfl
  · rfl
  · rfl

theorem exponentSpan?_of_isDigits {mark : Char} {sign ds : List Char}
    (hmark : mark = 'e' ∨ mark = 'E') (hsign : sign = [] ∨ sign = ['+'] ∨ sign = ['-'])
    (h : IsDigits ds) (v : List Char) :
    exponentSpan? (mark :: (sign ++ (ds ++ v))) =
      some (mark :: (sign ++ (ds ++ v.takeWhile Char.isDigit)), v.dropWhile Char.isDigit) := by
  obtain ⟨htake, hdrop⟩ := span_append h.2 v
  have hne : ds ++ v.takeWhile Char.isDigit ≠ [] := by simp [h.1]
  simp only [exponentSpan?, signSpan_of_isDigits hsign h, htake, hdrop]
  rw [if_pos ⟨isExponentMark_iff.mpr hmark, hne⟩]
  rfl

theorem withExponent_of_isExponent {x : List Char} (hx : IsExponent x) (m v : List Char) :
    ∃ more rest, withExponent m (x ++ v) = (m ++ x ++ more, rest) := by
  cases hx with
  | absent =>
    rw [List.nil_append, List.append_nil]
    unfold withExponent
    split
    · exact ⟨_, _, rfl⟩
    · exact ⟨[], v, by rw [List.append_nil]⟩
  | @given mark sign ds hmark hsign h =>
    rw [List.cons_append, List.append_assoc, withExponent,
      exponentSpan?_of_isDigits hmark hsign h v]
    exact ⟨v.takeWhile Char.isDigit, v.dropWhile Char.isDigit, by simp⟩

theorem withExponent_of_digits {ds x : List Char} (h : ∀ d ∈ ds, d.isDigit = true)
    (hx : IsExponent x) (m v : List Char) :
    ∃ more rest, withExponent (m ++ (ds ++ (x ++ v)).takeWhile Char.isDigit)
      ((ds ++ (x ++ v)).dropWhile Char.isDigit) = (m ++ ds ++ x ++ more, rest) := by
  obtain ⟨htake, hdrop⟩ := span_append h (x ++ v)
  rw [htake, hdrop]
  cases hx with
  | absent =>
    obtain ⟨more, rest, heq⟩ := withExponent_of_isExponent .absent
      (m ++ (ds ++ v.takeWhile Char.isDigit)) (v.dropWhile Char.isDigit)
    refine ⟨v.takeWhile Char.isDigit ++ more, rest, ?_⟩
    simpa using heq
  | given hmark hsign h' =>
    have hstop := isDigit_mark hmark
    obtain ⟨more, rest, heq⟩ := withExponent_of_isExponent (.given hmark hsign h') (m ++ ds) v
    refine ⟨more, rest, ?_⟩
    rw [List.cons_append, List.takeWhile_cons_of_neg (by simp [hstop]),
      List.dropWhile_cons_of_neg (by simp [hstop])]
    simpa using heq

theorem decimalSpan?_of_ne_nil {whole rest : List Char} (hwhole : cs.takeWhile Char.isDigit = whole)
    (hrest : cs.dropWhile Char.isDigit = rest)
    (h : whole ≠ [] ∨ 1 < (fractionSpan rest).1.length) :
    decimalSpan? cs = some (withExponent (whole ++ (fractionSpan rest).1) (fractionSpan rest).2) := by
  simp only [decimalSpan?, hwhole, hrest]
  rw [if_neg]
  rintro ⟨hnil, hle⟩
  exact h.elim (absurd hnil) (fun hlt => absurd hle (by omega))

theorem fractionSpan_point (cs : List Char) :
    fractionSpan ('.' :: cs) = ('.' :: cs.takeWhile Char.isDigit, cs.dropWhile Char.isDigit) := rfl

theorem fractionSpan_of_ne (h : c ≠ '.') (cs : List Char) : fractionSpan (c :: cs) = ([], c :: cs) := by
  unfold fractionSpan
  split
  · rename_i heq
    exact absurd (List.cons.inj heq).1 h
  · rfl

theorem decimalSpan?_of_point {ds fs x : List Char} (hds : ∀ d ∈ ds, d.isDigit = true)
    (hfs : ∀ d ∈ fs, d.isDigit = true) (hne : ds ≠ [] ∨ fs ≠ []) (hx : IsExponent x)
    (v : List Char) : ∃ more rest,
      decimalSpan? (ds ++ '.' :: (fs ++ (x ++ v))) = some (ds ++ '.' :: fs ++ x ++ more, rest) := by
  obtain ⟨htake, hdrop⟩ := span_append hds ('.' :: (fs ++ (x ++ v)))
  have hwhole : (ds ++ '.' :: (fs ++ (x ++ v))).takeWhile Char.isDigit = ds := by
    rw [htake, List.takeWhile_cons_of_neg (by decide), List.append_nil]
  have hrest : (ds ++ '.' :: (fs ++ (x ++ v))).dropWhile Char.isDigit = '.' :: (fs ++ (x ++ v)) := by
    rw [hdrop, List.dropWhile_cons_of_neg (by decide)]
  obtain ⟨more, rest, hread⟩ := withExponent_of_digits hfs hx (ds ++ ['.']) v
  refine ⟨more, rest, ?_⟩
  rw [decimalSpan?_of_ne_nil hwhole hrest, fractionSpan_point]
  · simpa using hread
  · rw [fractionSpan_point, (span_append hfs _).1]
    refine hne.imp_right fun hne => ?_
    have := List.length_pos_iff.mpr hne
    simp only [List.length_cons, List.length_append]
    omega

theorem decimalSpan?_of_isDecimal (h : IsDecimal u) (v : List Char) :
    ∃ more rest, decimalSpan? (u ++ v) = some (u ++ more, rest) := by
  obtain ⟨hm, hx⟩ := h
  cases hm with
  | pointed hds hfs => simpa using decimalSpan?_of_point hds.2 hfs (.inl hds.1) hx v
  | fraction hfs =>
    have hnil : ∀ d ∈ ([] : List Char), d.isDigit = true := nofun
    simpa using decimalSpan?_of_point hnil hfs.2 (.inr hfs.1) hx v
  | whole hm =>
    rename_i m x
    have hne : m ++ v.takeWhile Char.isDigit ≠ [] := by simp [hm.1]
    cases hx with
    | absent =>
      obtain ⟨htake, hdrop⟩ := span_append hm.2 v
      rw [List.append_nil, decimalSpan?_of_ne_nil htake hdrop (.inl hne)]
      obtain ⟨more, rest, hread⟩ := withExponent_of_isExponent .absent
        (m ++ v.takeWhile Char.isDigit ++ (fractionSpan (v.dropWhile Char.isDigit)).1)
        (fractionSpan (v.dropWhile Char.isDigit)).2
      rw [List.nil_append] at hread
      refine ⟨v.takeWhile Char.isDigit ++ ((fractionSpan (v.dropWhile Char.isDigit)).1 ++ more),
        rest, ?_⟩
      rw [hread]
      simp
    | @given mark sign ds hmark hsign hds =>
      have hstop := isDigit_mark hmark
      have hpoint : mark ≠ '.' := by rcases hmark with rfl | rfl <;> decide
      obtain ⟨htake, hdrop⟩ := span_append hm.2 (mark :: (sign ++ ds) ++ v)
      rw [List.cons_append, List.takeWhile_cons_of_neg (by simp [hstop]), List.append_nil] at htake
      rw [List.cons_append, List.dropWhile_cons_of_neg (by simp [hstop])] at hdrop
      obtain ⟨more, rest, hread⟩ := withExponent_of_isExponent (.given hmark hsign hds) m v
      rw [List.append_assoc, List.cons_append, decimalSpan?_of_ne_nil htake hdrop (.inl hm.1),
        fractionSpan_of_ne hpoint, List.append_nil, ← List.cons_append, hread]
      exact ⟨more, rest, by simp⟩

theorem isExponent_of_exponentSpan? {part : List Char} (h : exponentSpan? cs = some (part, rest)) :
    IsExponent part := by
  cases cs with
  | nil => cases h
  | cons mark cs =>
    simp only [exponentSpan?] at h
    split at h
    · rename_i hread
      cases h
      refine .given (isExponentMark_iff.mp hread.1) ?_ ⟨hread.2, forall_mem_takeWhile _ _⟩
      unfold signSpan
      split <;> simp
    · cases h

theorem isExponent_of_withExponent (m v : List Char) :
    ∃ x, (withExponent m v).1 = m ++ x ∧ IsExponent x := by
  unfold withExponent
  split
  · rename_i hspan
    exact ⟨_, rfl, isExponent_of_exponentSpan? hspan⟩
  · exact ⟨[], by simp, .absent⟩

theorem isMantissa_of_fractionSpan {ds : List Char} (hds : ∀ d ∈ ds, d.isDigit = true)
    (hne : ¬ (ds = [] ∧ (fractionSpan cs).1.length ≤ 1)) :
    IsMantissa (ds ++ (fractionSpan cs).1) := by
  unfold fractionSpan at hne ⊢
  split
  · rename_i cs
    have hfs := forall_mem_takeWhile Char.isDigit cs
    by_cases hnil : ds = []
    · subst hnil
      have hfraction : cs.takeWhile Char.isDigit ≠ [] := by
        intro hempty
        simp [hempty] at hne
      exact .fraction ⟨hfraction, hfs⟩
    · exact .pointed ⟨hnil, hds⟩ hfs
  · rw [List.append_nil]
    refine .whole ⟨fun hnil => hne ⟨hnil, ?_⟩, hds⟩
    split <;> simp_all

theorem isDecimal_of_decimalSpan? (h : decimalSpan? cs = some (u, rest)) : IsDecimal u := by
  have hdigits := forall_mem_takeWhile Char.isDigit cs
  simp only [decimalSpan?] at h
  split at h
  · cases h
  · rename_i hne
    obtain ⟨x, hread, hx⟩ := isExponent_of_withExponent
      (cs.takeWhile Char.isDigit ++ (fractionSpan (cs.dropWhile Char.isDigit)).1)
      (fractionSpan (cs.dropWhile Char.isDigit)).2
    rw [Option.some.inj h] at hread
    obtain rfl : u = _ := hread
    exact .mk (isMantissa_of_fractionSpan hdigits hne) hx

/-! ## Hexadecimal literals -/

theorem hexSpan?_of_isHexDigits {ds : List Char} (h : IsHexDigits ds) (v : List Char) :
    hexSpan? ('0' :: 'x' :: (ds ++ v)) =
      some (ds ++ v.takeWhile (hexDigit? · |>.isSome), v.dropWhile (hexDigit? · |>.isSome)) := by
  obtain ⟨htake, hdrop⟩ := span_append h.2 v
  simp only [hexSpan?]
  rw [htake, hdrop]
  split
  · rename_i heq
    exact absurd heq (by simp [h.1])
  · rfl

theorem isHexDigits_of_hexSpan? {ds : List Char} (h : hexSpan? cs = some (ds, rest)) :
    IsHexDigits ds := by
  unfold hexSpan? at h
  split at h
  · split at h
    · cases h
    · rename_i hne
      cases h
      exact ⟨hne, forall_mem_takeWhile _ _⟩
  · cases h

end Numeral

/-! ## Symbols -/

theorem Symbol.mem_all (s : Symbol) : s ∈ Symbol.all := by
  cases s <;> decide

theorem Symbol.chars_injective {s t : Symbol} (h : s.chars = t.chars) : s = t := by
  revert s t
  have h : ∀ s ∈ Symbol.all, ∀ t ∈ Symbol.all, s.chars = t.chars → s = t := by decide
  exact fun {s t} => h s s.mem_all t t.mem_all

theorem Symbol.length_sorted :
    Symbol.all.Pairwise fun s t => t.chars.length ≤ s.chars.length := by decide

theorem le_of_find?_eq_some {α : Type} {p : α → Bool} (size : α → Nat) {l : List α} {a b : α}
    (hsorted : l.Pairwise fun a b => size b ≤ size a) (hfind : l.find? p = some a) (hb : b ∈ l)
    (hp : p b = true) : size b ≤ size a := by
  induction l with
  | nil => cases hb
  | cons x l ih =>
    obtain ⟨hx, hsorted⟩ := List.pairwise_cons.mp hsorted
    rw [List.find?_cons] at hfind
    split at hfind
    · cases hfind
      rcases List.mem_cons.mp hb with rfl | hb
      · exact Nat.le_refl _
      · exact hx b hb
    · rename_i hnot
      rcases List.mem_cons.mp hb with rfl | hb
      · rw [hp] at hnot
        cases hnot
      · exact ih hsorted hfind hb

theorem Symbol.eq_cons_chars (s : Symbol) : ∃ c cs, s.chars = c :: cs ∧ isLetter c = false ∧
    c ≠ '"' ∧ c.isDigit = false ∧ (c = '.' → cs = []) := by
  cases s <;> exact ⟨_, _, rfl, by decide⟩

theorem Symbol.scan?_of_prefix (s : Symbol) (v : List Char) :
    ∃ t more rest, v = more ++ rest ∧ t.chars = s.chars ++ more ∧
      Symbol.scan? (s.chars ++ v) = some (t, rest) := by
  have hs : s.chars.isPrefixOf (s.chars ++ v) = true :=
    List.isPrefixOf_iff_prefix.mpr (List.prefix_append _ _)
  cases hfind : Symbol.all.find? (·.chars.isPrefixOf (s.chars ++ v)) with
  | none => exact absurd hs (List.find?_eq_none.mp hfind s s.mem_all)
  | some t =>
    have hle := le_of_find?_eq_some (·.chars.length) length_sorted hfind s.mem_all hs
    have ht := List.find?_some (p := fun s' : Symbol => s'.chars.isPrefixOf (s.chars ++ v)) hfind
    obtain ⟨rest, hrest⟩ := List.isPrefixOf_iff_prefix.mp ht
    obtain ⟨more, hmore⟩ := List.prefix_of_prefix_length_le (List.prefix_append s.chars v)
      ⟨rest, hrest⟩ hle
    refine ⟨t, more, rest, ?_, hmore.symm, ?_⟩
    · rw [← hmore, List.append_assoc] at hrest
      exact (List.append_cancel_left hrest).symm
    · rw [Symbol.scan?, hfind, ← hrest]
      simp

/-! ## Words -/

namespace Keyword

theorem mem_all (k : Keyword) : k ∈ Keyword.all := by
  match k with
  | .kind k => cases k <;> decide
  | .ifWord | .elifWord | .elseWord | .whileWord | .printWord | .funWord | .returnWord | .importWord
  | .xorWord => decide

theorem ofText?_text (k : Keyword) : ofText? k.text = some k := by
  have h : ∀ k ∈ Keyword.all, ofText? k.text = some k := by decide +kernel
  exact h k k.mem_all

theorem eq_cons_text (k : Keyword) : ∃ c cs, k.text.toList = c :: cs ∧ isLetter c = true ∧
    ∀ d ∈ cs, isWordChar d = true := by
  have h : ∀ k ∈ Keyword.all, isLetter (k.text.toList.headD ' ') = true ∧
      k.text.toList.tail.all isWordChar = true := by decide +kernel
  have hne : ∀ k ∈ Keyword.all, k.text.toList ≠ [] := by decide +kernel
  obtain ⟨c, cs, hcons⟩ := List.exists_cons_of_ne_nil (hne k k.mem_all)
  obtain ⟨hc, hcs⟩ := h k k.mem_all
  rw [hcons] at hc hcs
  exact ⟨c, cs, hcons, hc, List.all_eq_true.mp hcs⟩

end Keyword

theorem Spells.ofWord (hc : isLetter c = true) (hcs : ∀ d ∈ cs, isWordChar d = true) :
    Spells (c :: cs) (.ok (Lexeme.ofWord (String.ofList (c :: cs)))) := by
  unfold Lexeme.ofWord
  split
  · rename_i k hk
    have htext := beq_iff_eq.mp (List.find?_some (p := fun k : Keyword => k.text == _) hk)
    rw [← String.toList_ofList (l := c :: cs), ← htext]
    exact .keyword k
  · rename_i hnone
    refine .identifier hc hcs fun k heq => ?_
    rw [← heq, Keyword.ofText?_text] at hnone
    cases hnone

/-- The text begins like a number: with a digit, or with a point and more behind it. -/
def BeginsNumber (u : List Char) : Prop :=
  ∃ c cs, u = c :: cs ∧ (c.isDigit = true ∨ c = '.' ∧ cs ≠ [])

theorem IsDecimal.beginsNumber (h : IsDecimal u) : BeginsNumber u := by
  obtain ⟨hm, -⟩ := h
  cases hm with
  | whole h =>
    obtain ⟨d, ds, rfl⟩ := List.exists_cons_of_ne_nil h.1
    exact ⟨d, _, rfl, .inl (h.2 d List.mem_cons_self)⟩
  | pointed h _ =>
    obtain ⟨d, ds, rfl⟩ := List.exists_cons_of_ne_nil h.1
    exact ⟨d, _, rfl, .inl (h.2 d List.mem_cons_self)⟩
  | fraction h => exact ⟨'.', _, rfl, .inr ⟨rfl, by simp [h.1]⟩⟩

/-- A decimal literal is made of digits and five other characters. It has no `x`, so it is never the
beginning of a hexadecimal one with more than its first character. -/
theorem IsDecimal.not_mem (h : IsDecimal u) (hc : c.isDigit = false)
    (hne : c ∉ ['.', 'e', 'E', '+', '-']) : c ∉ u := by
  have digits {ds : List Char} (hds : ∀ d ∈ ds, d.isDigit = true) : c ∉ ds := fun hmem => by
    rw [hds c hmem] at hc
    cases hc
  simp only [List.mem_cons, List.not_mem_nil, or_false, not_or] at hne
  obtain ⟨hpoint, he, hE, hplus, hminus⟩ := hne
  obtain ⟨hm, hx⟩ := h
  rw [List.mem_append, not_or]
  constructor
  · cases hm with
    | whole h => exact digits h.2
    | pointed h hf => simp [digits h.2, digits hf, hpoint]
    | fraction h => simp [digits h.2, hpoint]
  · cases hx with
    | absent => simp
    | given hmark hsign h =>
      have := digits h.2
      rcases hmark with rfl | rfl <;> rcases hsign with rfl | rfl | rfl <;> simp [*]

namespace Lexeme

theorem ofWord_of_ne {word : String} (h : ∀ k : Keyword, k.text ≠ word) :
    ofWord word = .identifier word := by
  unfold ofWord
  split
  · rename_i k hk
    exact absurd (beq_iff_eq.mp (List.find?_some (p := fun k : Keyword => k.text == word) hk)) (h k)
  · rfl

theorem scanNumber?_of_hexSpan? {ds : List Char} (h : Numeral.hexSpan? cs = some (ds, rest)) :
    scanNumber? cs = some ((ofHex ds).map (·, rest)) := by
  rw [scanNumber?, h]
  have hfinite := Number.isFinite_ofNat (Numeral.hex ds)
  by_cases hlt : Numeral.hex ds < Numeral.bound
  · simp [ofHex, hlt, hfinite.mpr hlt, Except.map]
  · simp [ofHex, hlt, mt hfinite.mp hlt, Except.map]

theorem scanNumber?_sound {r : Except LexFault (Lexeme × List Char)} (h : scanNumber? cs = some r) :
    ∃ u v l, cs = u ++ v ∧ Spells u l ∧ r = l.map (·, v) ∧ BeginsNumber u := by
  cases hspan : Numeral.hexSpan? cs with
  | some p =>
    obtain ⟨ds, v⟩ := p
    rw [scanNumber?_of_hexSpan? hspan] at h
    have hds := Numeral.isHexDigits_of_hexSpan? hspan
    have hcs := Numeral.hexSpan?_eq hspan
    have hbegins : BeginsNumber ('0' :: 'x' :: ds) := ⟨'0', _, rfl, .inl rfl⟩
    obtain rfl := Option.some.inj h
    exact ⟨'0' :: 'x' :: ds, v, _, hcs.symm, .hexadecimal hds, rfl, hbegins⟩
  | none =>
    rw [scanNumber?, hspan] at h
    obtain ⟨⟨u, v⟩, hspan, rfl⟩ := Option.map_eq_some_iff.mp h
    have hu := Numeral.isDecimal_of_decimalSpan? hspan
    exact ⟨u, v, _, (Numeral.decimalSpan?_eq hspan).symm, .decimal hu, rfl, hu.beginsNumber⟩

theorem scan_of_scanNumber? {r : Except LexFault (Lexeme × List Char)}
    (h : scanNumber? (c :: cs) = some r) : scan c cs = r := by
  obtain ⟨u, v, l, hcs, -, -, d, w, rfl, hd⟩ := scanNumber?_sound h
  obtain ⟨rfl, -⟩ := List.cons.inj hcs
  have hletter : isLetter c = false := by
    obtain hd | ⟨rfl, -⟩ := hd
    · exact isLetter_of_isDigit hd
    · decide
  have hquote : c ≠ '"' := by
    obtain hd | ⟨rfl, -⟩ := hd
    · exact ne_of_isDigit hd (by decide)
    · decide
  rw [scan, hletter, h]
  simp [hquote]

/-- What is scanned at the front of a text is spelled there. Otherwise a string does not end, or no
word begins with the first character. -/
theorem scan_sound (c : Char) (cs : List Char) :
    (∃ u v l, c :: cs = u ++ v ∧ Spells u l ∧ scan c cs = l.map (·, v)) ∨
      (c = '"' ∧ scan c cs = .error .unterminatedString) ∨
      (c ≠ '"' ∧ scan c cs = .error (.unexpectedCharacter c)) := by
  unfold scan
  split
  · rename_i hletter
    refine .inl ⟨c :: cs.takeWhile isWordChar, cs.dropWhile isWordChar, _, ?_,
      .ofWord hletter (forall_mem_takeWhile _ _), rfl⟩
    rw [List.cons_append, List.takeWhile_append_dropWhile]
  split
  · rename_i hquote
    obtain rfl := beq_iff_eq.mp hquote
    have hsplit := List.takeWhile_append_dropWhile (p := (· != '"')) (l := cs)
    split
    · exact .inr (.inl ⟨rfl, rfl⟩)
    · rename_i d rest hdrop
      have hd := List.head?_dropWhile_not (· != '"') cs
      rw [hdrop] at hd hsplit
      obtain rfl : d = '"' := by simpa using hd
      refine .inl ⟨'"' :: (cs.takeWhile (· != '"') ++ ['"']), rest, _, ?_, .string ?_, rfl⟩
      · simp [hsplit]
      · intro hmem
        exact absurd (List.mem_takeWhile_imp hmem) (by decide)
  rename_i hquote
  split
  · rename_i hnumber
    obtain ⟨u, v, l, hcs, hu, rfl, -⟩ := scanNumber?_sound hnumber
    exact .inl ⟨u, v, l, hcs, hu, rfl⟩
  split
  · rename_i s rest hsymbol
    exact .inl ⟨s.chars, rest, _, (Symbol.scan?_eq hsymbol).symm, .symbol s, rfl⟩
  · exact .inr (.inr ⟨by simpa using hquote, rfl⟩)

/-- In front of `v`, the word `r` that `u` spells is scanned, or a longer one that goes on with the
first characters of `v`. -/
def ScannedBefore (u : List Char) (r : Except LexFault Lexeme) (v : List Char) : Prop :=
  ∀ c cs, c :: cs = u ++ v → ∃ more rest r', v = more ++ rest ∧ Spells (u ++ more) r' ∧
    scan c cs = r'.map (·, rest) ∧ (more = [] → r' = r)

theorem scanned_letters (hc : isLetter c = true) (hcs : ∀ d ∈ cs, isWordChar d = true)
    (v : List Char) : ScannedBefore (c :: cs) (.ok (ofWord (String.ofList (c :: cs)))) v := by
  intro d ds hds
  rw [List.cons_append] at hds
  obtain ⟨rfl, rfl⟩ := List.cons.inj hds
  obtain ⟨htake, hdrop⟩ := span_append hcs v
  refine ⟨v.takeWhile isWordChar, v.dropWhile isWordChar, _,
    List.takeWhile_append_dropWhile.symm,
    .ofWord hc (forall_mem_append hcs (forall_mem_takeWhile _ _)), ?_, fun hnil => ?_⟩
  · rw [scan, hc, htake, hdrop]
    rfl
  · rw [hnil]
    exact congrArg (fun cs => Except.ok (ofWord (String.ofList (d :: cs)))) (List.append_nil cs)

theorem scanned_hexadecimal {ds : List Char} (h : IsHexDigits ds) (v : List Char) :
    ScannedBefore ('0' :: 'x' :: ds) (ofHex ds) v := by
  intro c cs hcs
  rw [List.cons_append, List.cons_append] at hcs
  obtain ⟨rfl, rfl⟩ := List.cons.inj hcs
  have hspan := Numeral.hexSpan?_of_isHexDigits h v
  have hmore : IsHexDigits (ds ++ v.takeWhile (Numeral.hexDigit? · |>.isSome)) :=
    ⟨by simp [h.1], forall_mem_append h.2 (forall_mem_takeWhile _ _)⟩
  refine ⟨v.takeWhile (Numeral.hexDigit? · |>.isSome), v.dropWhile (Numeral.hexDigit? · |>.isSome),
    _, List.takeWhile_append_dropWhile.symm, .hexadecimal hmore,
    scan_of_scanNumber? (scanNumber?_of_hexSpan? hspan), fun hnil => ?_⟩
  rw [hnil]
  exact congrArg ofHex (List.append_nil ds)

theorem scanned_decimal (h : IsDecimal u) (v : List Char) :
    ScannedBefore u (.ok (.number (String.ofList u) (.ofDecimal false (Numeral.decimal u)))) v := by
  intro c cs hcs
  cases hspan : Numeral.hexSpan? (u ++ v) with
  | some p =>
    -- the text goes on as a hexadecimal literal, of which only the zero is decimal
    obtain ⟨ds, rest⟩ := p
    have hds := Numeral.isHexDigits_of_hexSpan? hspan
    have hsplit := Numeral.hexSpan?_eq hspan
    obtain ⟨d, ds', rfl, -⟩ := h.beginsNumber
    rw [List.cons_append] at hsplit
    obtain ⟨rfl, htail⟩ := List.cons.inj hsplit
    obtain rfl : ds' = [] := by
      cases ds' with
      | nil => rfl
      | cons e ds' =>
        rw [List.cons_append] at htail
        obtain ⟨rfl, -⟩ := List.cons.inj htail
        exact absurd (h.not_mem (c := 'x') rfl (by decide)) (by simp)
    refine ⟨'x' :: ds, rest, _, by simpa using htail.symm, .hexadecimal hds,
      scan_of_scanNumber? ?_, nofun⟩
    rw [hcs]
    exact scanNumber?_of_hexSpan? hspan
  | none =>
    obtain ⟨more, rest, hread⟩ := Numeral.decimalSpan?_of_isDecimal h v
    have hsplit := Numeral.decimalSpan?_eq hread
    rw [List.append_assoc] at hsplit
    refine ⟨more, rest, _, (List.append_cancel_left hsplit).symm,
      .decimal (Numeral.isDecimal_of_decimalSpan? hread), scan_of_scanNumber? ?_, ?_⟩
    · rw [hcs, scanNumber?, hspan, hread]
      rfl
    · rintro rfl
      rw [List.append_nil]

theorem scanned_string (h : '"' ∉ cs) (v : List Char) :
    ScannedBefore ('"' :: (cs ++ ['"'])) (.ok (.string (String.ofList cs))) v := by
  intro d ds hds
  rw [List.cons_append, List.append_assoc, List.singleton_append] at hds
  obtain ⟨rfl, rfl⟩ := List.cons.inj hds
  obtain ⟨htake, hdrop⟩ := span_append (p := (· != '"'))
    (fun d hd => bne_iff_ne.mpr fun heq => h (heq ▸ hd)) ('"' :: v)
  refine ⟨[], v, _, rfl, by simpa using Spells.string h, ?_, fun _ => rfl⟩
  rw [scan, htake, hdrop]
  simp [isLetter, Except.map]

theorem scanned_symbol (s : Symbol) (v : List Char) : ScannedBefore s.chars (.ok (.symbol s)) v := by
  intro c cs hcs
  obtain ⟨d, w, hchars, hletter, hquote, hdigit, hpoint⟩ := s.eq_cons_chars
  rw [hchars, List.cons_append] at hcs
  obtain ⟨rfl, rfl⟩ := List.cons.inj hcs
  cases hnumber : scanNumber? (c :: (w ++ v)) with
  | some r =>
    -- a point with digits behind it
    obtain ⟨u, rest, l, hsplit, hu, rfl, e, ds, rfl, he⟩ := scanNumber?_sound hnumber
    rw [List.cons_append] at hsplit
    obtain ⟨rfl, hsplit⟩ := List.cons.inj hsplit
    obtain ⟨rfl, hne⟩ := he.resolve_left (by simp [hdigit])
    obtain rfl := hpoint rfl
    rw [hchars]
    exact ⟨ds, rest, _, by simpa using hsplit, by simpa using hu, scan_of_scanNumber? hnumber,
      fun hnil => absurd hnil hne⟩
  | none =>
    obtain ⟨t, more, rest, hv, ht, hread⟩ := s.scan?_of_prefix v
    refine ⟨more, rest, .ok (.symbol t), hv, by rw [← ht]; exact .symbol t, ?_, ?_⟩
    · rw [hchars, List.cons_append] at hread
      rw [scan, hletter, hnumber, hread]
      simp [hquote, Except.map]
    · rintro rfl
      rw [List.append_nil] at ht
      rw [Symbol.chars_injective ht]

/-- Where a word is spelled at the front of a text, that word or a longer one is scanned. -/
theorem scanned_of_spells {r : Except LexFault Lexeme} (h : Spells u r) (v : List Char) :
    ScannedBefore u r v := by
  cases h with
  | keyword k =>
    obtain ⟨c, cs, hk, hc, hcs⟩ := k.eq_cons_text
    have hword := scanned_letters hc hcs v
    rwa [← hk, String.ofList_toList, ofWord, Keyword.ofText?_text] at hword
  | identifier hc hcs hk =>
    have hword := scanned_letters hc hcs v
    rwa [ofWord_of_ne hk] at hword
  | hexadecimal h => exact scanned_hexadecimal h v
  | decimal h => exact scanned_decimal h v
  | string h => exact scanned_string h v
  | symbol s => exact scanned_symbol s v

end Lexeme

theorem Spells.ne_nil {r : Except LexFault Lexeme} (h : Spells u r) : u ≠ [] := by
  cases h with
  | keyword k =>
    obtain ⟨c, cs, hk, -⟩ := k.eq_cons_text
    rw [hk]
    nofun
  | decimal h =>
    obtain ⟨c, cs, rfl, -⟩ := h.beginsNumber
    nofun
  | symbol s =>
    obtain ⟨c, cs, hs, -⟩ := s.eq_cons_chars
    rw [hs]
    nofun
  | identifier | hexadecimal | string => nofun

theorem Spells.toList_text {l : Lexeme} (h : Spells u (.ok l)) : l.text.toList = u := by
  generalize hr : (Except.ok l : Except LexFault Lexeme) = r at h
  cases h with
  | keyword k => cases hr; rfl
  | identifier => cases hr; exact String.toList_ofList
  | hexadecimal =>
    unfold Lexeme.ofHex at hr
    split at hr
    · cases hr; exact String.toList_ofList
    · cases hr
  | decimal => cases hr; exact String.toList_ofList
  | string => cases hr; simp [Lexeme.text]
  | symbol s => cases hr; exact String.toList_ofList

theorem IsLongestWord.scan_eq {r : Except LexFault Lexeme} (h : IsLongestWord (c :: cs) u v r) :
    Lexeme.scan c cs = r.map (·, v) := by
  obtain ⟨more, rest, r', rfl, hspells, hscan, heq⟩ := Lexeme.scanned_of_spells h.spells v c cs h.split
  have hle := h.longest (u ++ more) r' ⟨rest, by rw [h.split, List.append_assoc]⟩ hspells
  obtain rfl : more = [] := by
    rw [List.length_append] at hle
    exact List.eq_nil_of_length_eq_zero (by omega)
  rw [hscan, heq rfl, List.nil_append]

theorem Spells.scan_eq {r : Except LexFault Lexeme} (h : Spells (c :: cs) r) :
    Lexeme.scan c cs = r.map (·, []) :=
  IsLongestWord.scan_eq
    ⟨(List.append_nil _).symm, h, fun _ _ hprefix _ => hprefix.length_le⟩

/-- Characters spell at most one word. -/
theorem Spells.unique {r r' : Except LexFault Lexeme} (h : Spells u r) (h' : Spells u r') :
    r = r' := by
  obtain ⟨c, cs, rfl⟩ := List.exists_cons_of_ne_nil h.ne_nil
  have hscan := h.scan_eq
  rw [h'.scan_eq] at hscan
  cases r <;> cases r' <;> cases hscan <;> rfl

end KLang
