import KLang.Proofs.Lexing.Munch

/-!
# Texts that are split into given words

A text is put together from gaps and words, and splitting it gives these words back. That is so if
each word is scanned where it was put, and a word in front of a blank or a comment always is.

* `IsSplit`: gaps and words, each of which is scanned in front of what follows it.
* `Tokens.ofChars_of_isSplit`: such a text has these words and no others.
* `IsSpaced`: spellings of words with gaps between them.
* `IsSpaced.isSplit`: such a text is one of the first kind, whatever the gaps are.
-/

namespace KLang

variable {c : Char} {cs u v gap rest : List Char} {l : Lexeme} {ls : List Lexeme}

/-! ## Lines -/

namespace Cursor

variable {p p' : Cursor} {t : Token} {ts : List Token} {ending : Ending}

theorem location_of_token (h : p.next = .ok (some t, p')) :
    ∃ n k, n ≤ k ∧ k + newlines p'.rest = newlines p.rest ∧
      t.location = p.location.map (·.down n) ∧ p'.location = p.location.map (·.down k) := by
  have hlines := newlines_skipTrivia false 0 p.rest
  rcases hskip : skipTrivia false 0 p.rest with ⟨n, rest⟩
  rw [hskip, Nat.zero_add] at hlines
  cases rest with
  | nil =>
    rw [next_of_nil hskip] at h
    cases h
  | cons c cs =>
    rw [next_of_cons hskip] at h
    split at h
    · cases h
    · rename_i l rest hscan
      cases h
      have hword := Lexeme.newlines_scan hscan
      dsimp only at hlines
      exact ⟨n, n + l.newlines, by omega, by dsimp only; omega, rfl, rfl⟩

theorem location_of_finish (h : p.next = .ok (none, p')) :
    p'.location = p.location.map (·.down (newlines p.rest)) := by
  have hlines := newlines_skipTrivia false 0 p.rest
  rcases hskip : skipTrivia false 0 p.rest with ⟨n, rest⟩
  rw [hskip, Nat.zero_add] at hlines
  cases rest with
  | nil =>
    rw [next_of_nil hskip] at h
    cases h
    obtain rfl : n = newlines p.rest := hlines
    rfl
  | cons c cs =>
    rw [next_of_cons hskip] at h
    split at h <;> cases h

theorem Reads.location (h : p.Reads ts ending) :
    ∀ t ∈ ts, ∃ n ≤ newlines p.rest, t.location = p.location.map (·.down n) := by
  induction h with
  | finish | stop => exact fun t ht => absurd ht List.not_mem_nil
  | @token p p' t ts ending h _ ih =>
    obtain ⟨n, k, hnk, hk, ht, hp'⟩ := location_of_token h
    refine List.forall_mem_cons.mpr ⟨⟨n, by omega, ht⟩, fun t' ht' => ?_⟩
    obtain ⟨n', hn', hlocation⟩ := ih t' ht'
    rw [hp', map_down_down] at hlocation
    exact ⟨k + n', by omega, hlocation⟩

theorem Reads.eof {eof : Option Location} (h : p.Reads ts (.complete eof)) :
    eof = p.location.map (·.down (newlines p.rest)) := by
  generalize hending : Ending.complete eof = ending at h
  induction h with
  | finish h =>
    cases hending
    exact location_of_finish h
  | stop => cases hending
  | token h _ ih =>
    obtain ⟨n, k, -, hk, -, hp'⟩ := location_of_token h
    rw [ih hending, hp', map_down_down, hk]

end Cursor

/-! ## Splitting a text -/

theorem mem_breaks_of_isBlank (h : isBlank c = true) : c ∈ breaks := by
  simp only [isBlank, Bool.or_eq_true, beq_iff_eq, or_assoc] at h
  simp only [breaks, List.mem_cons, ← or_assoc] at h ⊢
  exact .inl (.inl h)

theorem Spells.not_mem_breaks {r : Except LexFault Lexeme} (h : Spells (c :: cs) r) :
    c ∉ breaks := by
  intro hc
  have hword := isWordChar_break c hc
  have hletter (h : isLetter c = true) : False := by simp [isWordChar, h] at hword
  generalize hu : c :: cs = u at h
  cases h with
  | keyword k =>
    obtain ⟨d, ds, hk, hd, -⟩ := k.eq_cons_text
    rw [hk] at hu
    exact hletter ((List.cons.inj hu).1 ▸ hd)
  | identifier hd => exact hletter ((List.cons.inj hu).1 ▸ hd)
  | hexadecimal => exact (ne_of_break c hc).2.2.2.1 (List.cons.inj hu).1
  | decimal h =>
    obtain ⟨d, ds, rfl, hd⟩ := h.beginsNumber
    obtain ⟨rfl, -⟩ := List.cons.inj hu
    obtain hd | ⟨rfl, -⟩ := hd
    · rw [isDigit_break c hc] at hd
      cases hd
    · exact (ne_of_break '.' hc).2.2.1 rfl
  | string =>
    obtain ⟨rfl, -⟩ := List.cons.inj hu
    exact absurd hc (by decide)
  | symbol s => exact not_mem_chars_of_break s c hc (hu ▸ List.mem_cons_self)

/-- The text is made of the words and gaps around them, and each word is scanned in front of what
follows it. -/
inductive IsSplit : List Char → List Lexeme → Prop
  | nil {gap : List Char} (h : IsGap gap []) : IsSplit gap []
  | cons {gap u rest : List Char} {l : Lexeme} {ls : List Lexeme} (h : IsGap gap (u ++ rest))
      (hu : IsLongestWord (u ++ rest) u rest (.ok l)) (more : IsSplit rest ls) :
      IsSplit (gap ++ (u ++ rest)) (l :: ls)

namespace Tokens

/-- A text that is made of words is split into these words. -/
theorem ofChars_of_isSplit (h : IsSplit cs ls) (here : Option Location) :
    (ofChars here cs).words.map (·.lexeme) = ls ∧
      (ofChars here cs).ending = .complete (here.map (·.down (newlines cs))) := by
  induction h generalizing here with
  | nil h =>
    have hskip := skipTrivia_of_isGap h 0
    rw [List.append_nil, Nat.zero_add] at hskip
    rw [ofChars_of_nil hskip]
    exact ⟨rfl, rfl⟩
  | @cons gap u rest l ls h hu _ ih =>
    obtain ⟨c, cs, rfl⟩ := List.exists_cons_of_ne_nil hu.spells.ne_nil
    have hbreak := hu.spells.not_mem_breaks
    have hblank : isBlank c = false :=
      Bool.eq_false_iff.mpr fun hblank => hbreak (mem_breaks_of_isBlank hblank)
    have hhash : c ≠ '#' := fun heq => hbreak (heq ▸ by decide)
    have hskip := skipTrivia_of_isGap h 0
    rw [Nat.zero_add, List.cons_append, skipTrivia_word _ _ hblank hhash] at hskip
    have hscan : Lexeme.scan c (cs ++ rest) = .ok (l, rest) := hu.scan_eq
    have hlines := Lexeme.newlines_scan hscan
    obtain ⟨hwords, hending⟩ := ih (here.map (·.down (newlines gap + l.newlines)))
    rw [map_down_down, Nat.add_assoc, ← hlines, ← newlines_append] at hending
    rw [List.cons_append, ofChars_of_ok hskip hscan]
    exact ⟨congrArg (l :: ·) hwords, hending⟩

theorem ofChars_eq_of_isSplit (h : IsSplit cs ls) (hline : newlines cs = 0)
    (here : Option Location) : ofChars here cs = ⟨ls.map (⟨·, here⟩), .complete here⟩ := by
  obtain ⟨hwords, hending⟩ := ofChars_of_isSplit h here
  have hlocation : ∀ t ∈ (ofChars here cs).words, t.location = here := fun t ht => by
    obtain ⟨n, hn, hlocation⟩ := (Cursor.reads_ofChars ⟨here, cs⟩).location t ht
    dsimp only at hn hlocation
    obtain rfl : n = 0 := by omega
    exact hlocation.trans (map_down_zero here)
  have htokens : (ofChars here cs).words = ls.map (⟨·, here⟩) := by
    rw [← hwords, List.map_map]
    refine (List.map_congr_left fun t ht => ?_).trans (List.map_id _) |>.symm
    exact congrArg (Token.mk t.lexeme) (hlocation t ht).symm
  rw [hline, map_down_zero] at hending
  rw [← htokens, ← hending]

end Tokens

/-! ## Words with gaps between them -/

/-- The spellings of the words, with a gap of at least one character between each and the next, and
perhaps a gap behind the last one. -/
inductive IsSpaced : List Lexeme → List Char → Prop
  | nil : IsSpaced [] []
  | last {l : Lexeme} {gap : List Char} (h : IsGap gap []) : IsSpaced [l] (l.text.toList ++ gap)
  | cons {l l' : Lexeme} {ls : List Lexeme} {gap rest : List Char} (hne : gap ≠ [])
      (h : IsGap gap rest) (more : IsSpaced (l' :: ls) rest) :
      IsSpaced (l :: l' :: ls) (l.text.toList ++ (gap ++ rest))

theorem IsGap.eq_nil_or (h : IsGap gap rest) : gap = [] ∨ ∃ b ∈ breaks, ∃ x, gap = b :: x := by
  cases h with
  | nil => exact .inl rfl
  | blank hc => exact .inr ⟨_, mem_breaks_of_isBlank hc, _, rfl⟩
  | comment => exact .inr ⟨'#', by decide, _, rfl⟩
  | lastComment => exact .inr ⟨'#', by decide, _, rfl⟩

/-- In front of a gap, or at the end of the text, a word is scanned as it is spelled: nothing that it
could go on with begins with a break. -/
theorem Spells.isLongestWord (h : Spells u (.ok l)) (hv : v = [] ∨ ∃ b ∈ breaks, ∃ x, v = b :: x) :
    IsLongestWord (u ++ v) u v (.ok l) := by
  refine ⟨rfl, h, fun u' r' hu' hr' => Nat.not_lt.mp fun hlt => ?_⟩
  obtain ⟨more, rfl⟩ := List.prefix_of_prefix_length_le (List.prefix_append u v) hu' hlt.le
  obtain ⟨rest, hrest⟩ := (List.prefix_append_right_inj u).mp hu'
  cases more with
  | nil => simp at hlt
  | cons d more =>
    obtain rfl | ⟨b, hb, x, rfl⟩ := hv
    · cases hrest
    obtain ⟨rfl, -⟩ := List.cons.inj hrest
    -- the longer word would be scanned as the shorter one with the break behind it
    obtain ⟨c, cs, rfl⟩ := List.exists_cons_of_ne_nil h.ne_nil
    have hscan := Lexeme.scan_append (x := more) hb h.scan_eq
    have hlonger : Lexeme.scan c (cs ++ d :: more) = r'.map (·, []) := hr'.scan_eq
    rw [hscan] at hlonger
    cases r' <;> cases hlonger

/-- Words with gaps between them are scanned where they were put. -/
theorem IsSpaced.isSplit (h : IsSpaced ls cs) (hls : ∀ l ∈ ls, Spells l.text.toList (.ok l))
    (hgap : IsGap gap cs) : IsSplit (gap ++ cs) ls := by
  induction h generalizing gap with
  | nil =>
    rw [List.append_nil]
    exact .nil hgap
  | @last l gap' h =>
    have hl := hls l List.mem_cons_self
    exact .cons hgap (hl.isLongestWord h.eq_nil_or) (.nil h)
  | @cons l l' ls gap' rest hne h _ ih =>
    have hl := hls l List.mem_cons_self
    obtain ⟨b, hb, x, hx⟩ := h.eq_nil_or.resolve_left hne
    exact .cons hgap (hl.isLongestWord (.inr ⟨b, hb, x ++ rest, by rw [hx]; rfl⟩))
      (ih (fun l hl => hls l (List.mem_cons_of_mem _ hl)) h)

end KLang
