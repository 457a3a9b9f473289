import KLang.Token.Lexer
import Mathlib.Data.List.TakeWhile

/-!
# Words in a text

* `breaks`: the characters that blanks and comments begin with. No word goes on with one of them, so
  what stands behind a break has no influence on the word in front of it.
* `Lexeme.scan_append`: a word is found again in front of a break.
* `Lexeme.text_scan`: a word and what remains are the text it was found in.
* `Lexeme.newlines_scan`: which line ends are within a word.
-/

namespace KLang

/-- The characters that blanks and comments begin with. -/
def breaks : List Char := [' ', '\t', '\n', '\r', '\x0b', '\x0c', '#']

variable {b : Char} {cs x : List Char}

/-! ## Spans that end at a break -/

theorem takeWhile_append_cons {p : Char → Bool} (hb : p b = false) :
    (cs ++ b :: x).takeWhile p = cs.takeWhile p := by
  induction cs with
  | nil => simp [hb]
  | cons c cs ih => simp [List.takeWhile_cons, ih]

theorem dropWhile_append_cons {p : Char → Bool} (hb : p b = false) :
    (cs ++ b :: x).dropWhile p = cs.dropWhile p ++ b :: x := by
  induction cs with
  | nil => simp [hb]
  | cons c cs ih =>
    rw [List.cons_append, List.dropWhile_cons, List.dropWhile_cons, ih]
    split <;> rfl

theorem takeWhile_append_of_dropWhile {p : Char → Bool} {c : Char} {rest : List Char}
    (h : cs.dropWhile p = c :: rest) (x : List Char) : (cs ++ x).takeWhile p = cs.takeWhile p := by
  have hlength := congrArg List.length (List.takeWhile_append_dropWhile (p := p) (l := cs))
  rw [h, List.length_append, List.length_cons] at hlength
  rw [List.takeWhile_append, if_neg (by omega)]

theorem dropWhile_append_of_dropWhile {p : Char → Bool} {c : Char} {rest : List Char}
    (h : cs.dropWhile p = c :: rest) (x : List Char) :
    (cs ++ x).dropWhile p = c :: (rest ++ x) := by
  rw [List.dropWhile_append, h]
  rfl

theorem isPrefixOf_append_cons {w : List Char} (hb : b ∉ w) :
    w.isPrefixOf (cs ++ b :: x) = w.isPrefixOf cs := by
  induction w generalizing cs with
  | nil => rfl
  | cons c w ih =>
    simp only [List.mem_cons, not_or] at hb
    cases cs with
    | nil => simp [List.isPrefixOf, beq_false_of_ne (Ne.symm hb.1)]
    | cons d cs => simp [List.isPrefixOf, ih hb.2]

theorem forall_mem_breaks {P : Char → Prop}
    (h : P ' ' ∧ P '\t' ∧ P '\n' ∧ P '\r' ∧ P '\x0b' ∧ P '\x0c' ∧ P '#') : ∀ b ∈ breaks, P b := by
  simpa [breaks] using h

theorem isWordChar_break : ∀ b ∈ breaks, isWordChar b = false := forall_mem_breaks (by decide)

theorem isDigit_break : ∀ b ∈ breaks, b.isDigit = false := forall_mem_breaks (by decide)

theorem hexDigit?_break : ∀ b ∈ breaks, (Numeral.hexDigit? b).isSome = false :=
  forall_mem_breaks (by decide)

theorem isExponentMark_break : ∀ b ∈ breaks, Numeral.isExponentMark b = false :=
  forall_mem_breaks (by decide)

theorem ne_of_break : ∀ b ∈ breaks, b ≠ '+' ∧ b ≠ '-' ∧ b ≠ '.' ∧ b ≠ '0' ∧ b ≠ 'x' :=
  forall_mem_breaks (by decide)

theorem not_mem_chars_of_break (s : Symbol) : ∀ b ∈ breaks, b ∉ s.chars := by
  cases s <;> exact forall_mem_breaks (by decide)

namespace Numeral

theorem signSpan_append (hb : b ∈ breaks) :
    signSpan (cs ++ b :: x) = ((signSpan cs).1, (signSpan cs).2 ++ b :: x) := by
  obtain ⟨hplus, hminus, -⟩ := ne_of_break b hb
  cases cs with
  | nil => simp [signSpan, hplus, hminus]
  | cons c cs => by_cases h : c = '+' <;> by_cases h' : c = '-' <;> simp [signSpan, h, h']

theorem exponentSpan?_append (hb : b ∈ breaks) :
    exponentSpan? (cs ++ b :: x) =
      (exponentSpan? cs).map fun (part, rest) => (part, rest ++ b :: x) := by
  have hdigit := isDigit_break b hb
  cases cs with
  | nil => simp [exponentSpan?, isExponentMark_break b hb]
  | cons mark cs =>
    simp only [List.cons_append, exponentSpan?, signSpan_append hb, takeWhile_append_cons hdigit,
      dropWhile_append_cons hdigit]
    split <;> rfl

theorem withExponent_append (hb : b ∈ breaks) (mantissa : List Char) :
    withExponent mantissa (cs ++ b :: x) =
      ((withExponent mantissa cs).1, (withExponent mantissa cs).2 ++ b :: x) := by
  simp only [withExponent, exponentSpan?_append hb]
  cases exponentSpan? cs <;> rfl

theorem fractionSpan_append (hb : b ∈ breaks) :
    fractionSpan (cs ++ b :: x) = ((fractionSpan cs).1, (fractionSpan cs).2 ++ b :: x) := by
  have hdigit := isDigit_break b hb
  obtain ⟨-, -, hpoint, -⟩ := ne_of_break b hb
  cases cs with
  | nil => simp [fractionSpan, hpoint]
  | cons c cs =>
    by_cases h : c = '.' <;>
      simp [fractionSpan, h, takeWhile_append_cons hdigit, dropWhile_append_cons hdigit]

theorem decimalSpan?_append (hb : b ∈ breaks) :
    decimalSpan? (cs ++ b :: x) =
      (decimalSpan? cs).map fun (text, rest) => (text, rest ++ b :: x) := by
  have hdigit := isDigit_break b hb
  simp only [decimalSpan?, takeWhile_append_cons hdigit, dropWhile_append_cons hdigit,
    fractionSpan_append hb, withExponent_append hb]
  split <;> rfl

theorem hexSpan?_of_not {c d : Char} (h : ¬ (c = '0' ∧ d = 'x')) :
    hexSpan? (c :: d :: cs) = none := by
  unfold hexSpan?
  split
  · rename_i heq
    cases heq
    exact absurd ⟨rfl, rfl⟩ h
  · rfl

theorem hexSpan?_append (hb : b ∈ breaks) :
    hexSpan? (cs ++ b :: x) = (hexSpan? cs).map fun (ds, rest) => (ds, rest ++ b :: x) := by
  have hhex := hexDigit?_break b hb
  obtain ⟨-, -, -, hzero, hmark⟩ := ne_of_break b hb
  match cs with
  | [] => simp [hexSpan?, hzero]
  | [c] => by_cases h : c = '0' <;> simp [hexSpan?, h, hmark]
  | c :: d :: cs =>
    by_cases h : c = '0' ∧ d = 'x'
    · obtain ⟨rfl, rfl⟩ := h
      simp only [List.cons_append, hexSpan?]
      rw [takeWhile_append_cons hhex, dropWhile_append_cons hhex]
      split <;> rfl
    · rw [hexSpan?_of_not h, List.cons_append, List.cons_append, hexSpan?_of_not h]
      rfl

/-! ### Spans and what remains -/

theorem signSpan_eq (cs : List Char) : (signSpan cs).1 ++ (signSpan cs).2 = cs := by
  unfold signSpan
  split <;> rfl

theorem exponentSpan?_eq {part rest : List Char} (h : exponentSpan? cs = some (part, rest)) :
    part ++ rest = cs := by
  cases cs with
  | nil => cases h
  | cons mark cs =>
    simp only [exponentSpan?] at h
    split at h
    · cases h
      simp [signSpan_eq]
    · cases h

theorem withExponent_eq (mantissa rest : List Char) :
    (withExponent mantissa rest).1 ++ (withExponent mantissa rest).2 = mantissa ++ rest := by
  unfold withExponent
  split
  · rename_i h
    rw [List.append_assoc, exponentSpan?_eq h]
  · rfl

theorem fractionSpan_eq (cs : List Char) : (fractionSpan cs).1 ++ (fractionSpan cs).2 = cs := by
  unfold fractionSpan
  split <;> simp

theorem decimalSpan?_eq {text rest : List Char} (h : decimalSpan? cs = some (text, rest)) :
    text ++ rest = cs := by
  simp only [decimalSpan?] at h
  split at h
  · cases h
  · have heq := withExponent_eq
      (cs.takeWhile Char.isDigit ++ (fractionSpan (cs.dropWhile Char.isDigit)).1)
      (fractionSpan (cs.dropWhile Char.isDigit)).2
    rw [Option.some.inj h, List.append_assoc, fractionSpan_eq,
      List.takeWhile_append_dropWhile] at heq
    exact heq

theorem hexSpan?_eq {ds rest : List Char} (h : hexSpan? cs = some (ds, rest)) :
    '0' :: 'x' :: (ds ++ rest) = cs := by
  unfold hexSpan? at h
  split at h
  · split at h
    · cases h
    · cases h
      rw [List.takeWhile_append_dropWhile]
  · cases h

end Numeral

theorem Symbol.scan?_append (hb : b ∈ breaks) :
    Symbol.scan? (cs ++ b :: x) = (Symbol.scan? cs).map fun (s, rest) => (s, rest ++ b :: x) := by
  have hprefix (s : Symbol) : s.chars.isPrefixOf (cs ++ b :: x) = s.chars.isPrefixOf cs :=
    isPrefixOf_append_cons (not_mem_chars_of_break s b hb)
  simp only [scan?, hprefix]
  cases h : Symbol.all.find? (·.chars.isPrefixOf cs) with
  | none => rfl
  | some s =>
    have hs := List.find?_some (p := fun s : Symbol => s.chars.isPrefixOf cs) h
    have hle := (List.isPrefixOf_iff_prefix.mp hs).length_le
    simp [List.drop_append_of_le_length hle]

theorem Symbol.scan?_eq {s : Symbol} {rest : List Char} (h : Symbol.scan? cs = some (s, rest)) :
    s.chars ++ rest = cs := by
  obtain ⟨t, ht, heq⟩ := Option.map_eq_some_iff.mp h
  cases heq
  have hs := List.find?_some (p := fun s : Symbol => s.chars.isPrefixOf cs) ht
  obtain ⟨rest, rfl⟩ := List.isPrefixOf_iff_prefix.mp hs
  simp

/-! ## Words in front of a break -/

namespace Lexeme

variable {c : Char} {l : Lexeme} {rest : List Char}

theorem text_ofWord (word : String) : (ofWord word).text = word := by
  unfold ofWord
  split
  · rename_i k hk
    have h := List.find?_some (p := fun k : Keyword => k.text == word) hk
    exact beq_iff_eq.mp h
  · rfl

theorem newlines_ofWord (word : String) : (ofWord word).newlines = 0 := by
  unfold ofWord
  split <;> rfl

theorem scanNumber?_append (hb : b ∈ breaks) :
    scanNumber? (cs ++ b :: x) =
      (scanNumber? cs).map fun r => r.map fun (l, rest) => (l, rest ++ b :: x) := by
  unfold scanNumber?
  rw [Numeral.hexSpan?_append hb, Numeral.decimalSpan?_append hb]
  cases Numeral.hexSpan? cs with
  | some p =>
    simp only [Option.map_some]
    split <;> rfl
  | none => cases Numeral.decimalSpan? cs <;> rfl

theorem number_scanNumber? (h : scanNumber? cs = some (.ok (l, rest))) :
    ∃ spelling value, l = .number spelling value ∧ spelling.toList ++ rest = cs := by
  unfold scanNumber? at h
  split at h
  · rename_i ds rest' hspan
    have h := Option.some.inj h
    split at h
    · cases h
      exact ⟨_, _, rfl, by rw [String.toList_ofList]; exact Numeral.hexSpan?_eq hspan⟩
    · cases h
  · obtain ⟨⟨spelling, rest'⟩, hspan, heq⟩ := Option.map_eq_some_iff.mp h
    cases heq
    exact ⟨_, _, rfl, by rw [String.toList_ofList]; exact Numeral.decimalSpan?_eq hspan⟩

theorem not_mem_text_scanNumber? (hb : b ∈ breaks) (h : scanNumber? cs = some (.ok (l, rest))) :
    b ∉ l.text.toList := by
  intro hmem
  obtain ⟨u, v, huv⟩ := List.append_of_mem hmem
  obtain ⟨spelling, value, rfl, hcs⟩ := number_scanNumber? h
  rw [show spelling.toList = u ++ b :: v from huv, List.append_assoc, List.cons_append] at hcs
  rw [← hcs, scanNumber?_append hb] at h
  obtain ⟨r, hr, heq⟩ := Option.map_eq_some_iff.mp h
  cases r with
  | error fault => cases heq
  | ok p =>
    have hlength := congrArg List.length (congrArg Prod.snd (Except.ok.inj heq))
    simp only [List.length_append, List.length_cons] at hlength
    omega

/-- A word is found again in front of a break. -/
theorem scan_append (hb : b ∈ breaks) (h : scan c cs = .ok (l, rest)) :
    scan c (cs ++ b :: x) = .ok (l, rest ++ b :: x) := by
  unfold scan at h ⊢
  split
  · rename_i hletter
    rw [if_pos hletter] at h
    cases h
    rw [takeWhile_append_cons (isWordChar_break b hb), dropWhile_append_cons (isWordChar_break b hb)]
  · rename_i hletter
    rw [if_neg hletter] at h
    split
    · rename_i hquote
      rw [if_pos hquote] at h
      split at h
      · cases h
      · rename_i hdrop
        cases h
        rw [dropWhile_append_of_dropWhile hdrop, takeWhile_append_of_dropWhile hdrop]
    · rename_i hquote
      rw [if_neg hquote] at h
      rw [← List.cons_append, scanNumber?_append hb, Symbol.scan?_append hb]
      cases hnumber : scanNumber? (c :: cs) with
      | some r =>
        rw [hnumber] at h
        simp only at h
        rw [h]
        rfl
      | none =>
        rw [hnumber] at h
        cases hsymbol : Symbol.scan? (c :: cs) with
        | some p =>
          rw [hsymbol] at h
          cases h
          rfl
        | none =>
          rw [hsymbol] at h
          cases h

/-- A word and what remains are the text it was found in. -/
theorem text_scan (h : scan c cs = .ok (l, rest)) : l.text.toList ++ rest = c :: cs := by
  unfold scan at h
  split at h
  · cases h
    rw [text_ofWord, String.toList_ofList, List.cons_append, List.takeWhile_append_dropWhile]
  · split at h
    · rename_i hquote
      split at h
      · cases h
      · rename_i d _ hdrop
        cases h
        have hd := List.head?_dropWhile_not (· != '"') cs
        rw [hdrop] at hd
        have hsplit := List.takeWhile_append_dropWhile (p := (· != '"')) (l := cs)
        rw [hdrop] at hsplit
        obtain rfl : d = '"' := by simpa using hd
        simp [text, beq_iff_eq.mp hquote, hsplit]
    · split at h
      · rename_i hnumber
        subst h
        obtain ⟨spelling, value, rfl, heq⟩ := number_scanNumber? hnumber
        exact heq
      · split at h
        · rename_i hsymbol
          cases h
          simpa [text, literal, Symbol.text] using Symbol.scan?_eq hsymbol
        · cases h

theorem newlines_text_scan (h : scan c cs = .ok (l, rest)) :
    KLang.newlines l.text.toList = l.newlines := by
  have hbreak : '\n' ∈ breaks := by decide
  unfold scan at h
  split at h
  · rename_i hletter
    cases h
    rw [newlines_ofWord, text_ofWord, String.toList_ofList]
    refine List.count_eq_zero.mpr fun hmem => ?_
    rcases List.mem_cons.mp hmem with rfl | hmem
    · exact absurd hletter (by decide)
    · exact absurd (List.mem_takeWhile_imp hmem) (by decide)
  · split at h
    · split at h
      · cases h
      · cases h
        simp [text, newlines, KLang.newlines]
    · split at h
      · rename_i hnumber
        subst h
        obtain ⟨spelling, value, rfl, -⟩ := number_scanNumber? hnumber
        exact List.count_eq_zero.mpr (not_mem_text_scanNumber? hbreak hnumber)
      · split at h
        · rename_i s _ hsymbol
          cases h
          refine List.count_eq_zero.mpr ?_
          simpa [text, literal, Symbol.text] using not_mem_chars_of_break s '\n' hbreak
        · cases h

/-- The line ends up to what remains are those within the word. -/
theorem newlines_scan (h : scan c cs = .ok (l, rest)) :
    KLang.newlines (c :: cs) = l.newlines + KLang.newlines rest := by
  rw [← text_scan h, ← newlines_text_scan h]
  exact List.count_append

end Lexeme

end KLang
