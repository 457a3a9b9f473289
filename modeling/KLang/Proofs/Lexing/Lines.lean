import KLang.Proofs.Lexing.Layout

/-!
# The lines that tokens stand on

A token stands as many lines below the start of the text as there are line ends in front of its
first character, and so does the end of the text and whatever breaks it. What has been read of a
text says where the reader is, and nothing that is read later changes it.

* `Leads`: the words of a text with the characters in front of each of them, said without locations.
* `EndsWith`: how a text may end behind its words.
* `Cursor.Takes`: asking for tokens some number of times.
* `Tokens.lines_right`: all lines are right, at any time.
-/

namespace KLang

/-- Where the character behind the given ones stands, in a text that begins at `start`. -/
def placeBehind (start : Option Location) (cs : List Char) : Option Location :=
  start.map (·.down (newlines cs))

/-- The token of a word that stands behind the given characters of a text. -/
def tokenBehind (start : Option Location) (p : List Char × Lexeme) : Token :=
  ⟨p.2, placeBehind start p.1⟩

/-- Behind `front`, reading the longest word behind the longest gap again and again gives the words,
each of them with all characters in front of it, and leads to the place behind `front'`. -/
inductive Leads : List Char → List Char → List (List Char × Lexeme) → List Char → List Char → Prop
  | nil (front text : List Char) : Leads front text [] front text
  | cons {front text gap rest u v front' text' : List Char} {l : Lexeme}
      {ps : List (List Char × Lexeme)} (hgap : IsLongestGap text gap rest)
      (hword : IsLongestWord rest u v (.ok l))
      (more : Leads (front ++ gap ++ u) v ps front' text') :
      Leads front text ((front ++ gap, l) :: ps) front' text'

/-- How a text that begins at `start` ends behind the words in `front`: with a gap, or behind a gap
with an opening quote that no other quote follows, a character that no word begins with, or a
literal that is too large. -/
inductive EndsWith (start : Option Location) (front text : List Char) : Ending → Prop
  | complete (h : IsGap text []) :
      EndsWith start front text (.complete (placeBehind start (front ++ text)))
  | unterminated {gap cs : List Char} (hgap : IsLongestGap text gap ('"' :: cs)) (h : '"' ∉ cs) :
      EndsWith start front text (.broken ⟨.unterminatedString, placeBehind start (front ++ gap)⟩)
  | unexpected {gap cs : List Char} {c : Char} (hgap : IsLongestGap text gap (c :: cs))
      (hquote : c ≠ '"') (h : ∀ u r, u <+: c :: cs → ¬ Spells u r) :
      EndsWith start front text (.broken ⟨.unexpectedCharacter c, placeBehind start (front ++ gap)⟩)
  | tooLarge {gap rest u v : List Char} (hgap : IsLongestGap text gap rest)
      (hword : IsLongestWord rest u v (.error .numberTooLarge)) :
      EndsWith start front text (.broken ⟨.numberTooLarge, placeBehind start (front ++ gap)⟩)

namespace Cursor

/-- The tokens that are read by asking for them some number of times, and the place behind them. -/
inductive Takes : Cursor → List Token → Cursor → Prop
  | nil (p : Cursor) : Takes p [] p
  | cons {p p' p'' : Cursor} {t : Token} {ts : List Token} (h : p.next = .ok (some t, p'))
      (more : Takes p' ts p'') : Takes p (t :: ts) p''

end Cursor

variable {front text front' text' : List Char} {ps : List (List Char × Lexeme)}

/-! ## What has been read of a text -/

theorem Leads.append_eq (h : Leads front text ps front' text') :
    front' ++ text' = front ++ text := by
  induction h with
  | nil => rfl
  | cons hgap hword _ ih => rw [ih, hgap.split, hword.split, List.append_assoc, List.append_assoc]

theorem Leads.spelled (h : Leads front text ps front' text') :
    ∀ p ∈ ps, ∃ behind, front ++ text = p.1 ++ (p.2.text.toList ++ behind) := by
  induction h with
  | nil => exact fun p hp => absurd hp List.not_mem_nil
  | @cons front text gap rest u v _ _ l ps hgap hword _ ih =>
    have hsplit : front ++ text = front ++ gap ++ (u ++ v) := by
      rw [hgap.split, hword.split, List.append_assoc]
    refine List.forall_mem_cons.mpr ⟨⟨v, ?_⟩, fun p hp => ?_⟩
    · rw [hsplit, hword.spells.toList_text]
    · obtain ⟨behind, hbehind⟩ := ih p hp
      exact ⟨behind, by rw [hsplit, ← hbehind, List.append_assoc _ u]⟩

theorem IsLongestGap.unique {gap gap' rest rest' : List Char} (h : IsLongestGap text gap rest)
    (h' : IsLongestGap text gap' rest') : gap = gap' ∧ rest = rest' :=
  List.append_inj (h.split.symm.trans h'.split)
    (Nat.le_antisymm (h'.longest _ _ h.split h.isGap) (h.longest _ _ h'.split h'.isGap))

/-! ## Asking for a token -/

theorem Spells.eq_numberTooLarge {u : List Char} {fault : LexFault} (h : Spells u (.error fault)) :
    fault = .numberTooLarge := by
  generalize hr : Except.error fault = r at h
  cases h with
  | hexadecimal =>
    unfold Lexeme.ofHex at hr
    split at hr <;> cases hr
    rfl
  | keyword | identifier | decimal | string | symbol => cases hr

theorem not_mem_of_not_spells {cs : List Char} (h : ∀ u r, u <+: '"' :: cs → ¬ Spells u r) :
    '"' ∉ cs := by
  intro hmem
  obtain ⟨as, bs, rfl, has⟩ := List.eq_append_cons_of_mem hmem
  exact h _ _ ⟨bs, by simp⟩ (.string has)

theorem EndsWith.location_eq_none {ending : Ending} (h : EndsWith none front text ending) :
    ending = .complete none ∨ ∃ fault, ending = .broken ⟨fault, none⟩ := by
  cases h
  · exact .inl rfl
  all_goals exact .inr ⟨_, rfl⟩

theorem placeBehind_nil (start : Option Location) : placeBehind start [] = start :=
  map_down_zero start

theorem map_down_placeBehind (start : Option Location) (cs cs' : List Char) :
    (placeBehind start cs).map (·.down (newlines cs')) = placeBehind start (cs ++ cs') := by
  rw [placeBehind, map_down_down, placeBehind, newlines_append]

namespace Cursor

variable (start : Option Location)

/-- A cursor in a text that begins at `start`. -/
def behind (front text : List Char) : Cursor := ⟨placeBehind start front, text⟩

/-- The longest word behind the longest gap is the next token, on the line of its first character.
-/
theorem next_behind {gap rest u v : List Char} {l : Lexeme} (hgap : IsLongestGap text gap rest)
    (hword : IsLongestWord rest u v (.ok l)) (front : List Char) :
    (behind start front text).next =
      .ok (some (tokenBehind start (front ++ gap, l)), behind start (front ++ gap ++ u) v) := by
  obtain ⟨gap', rest', hgap', hskip⟩ := exists_longest_gap text
  obtain ⟨rfl, rfl⟩ := hgap.unique hgap'
  have hnext := next_of_longest (p := behind start front text) hskip hword
  rw [← newlines_append] at hnext
  simpa only [behind, tokenBehind, map_down_placeBehind, List.append_assoc] using hnext

theorem next_or_endsWith (front text : List Char) :
    (∃ gap rest u v l, IsLongestGap text gap rest ∧ IsLongestWord rest u v (.ok l)) ∨
      ∃ ending, EndsWith start front text ending ∧ Reads (behind start front text) [] ending := by
  obtain ⟨gap, rest, hgap, hskip⟩ := exists_longest_gap text
  by_cases hspelled : ∃ u r, u <+: rest ∧ Spells u r
  · obtain ⟨u, r, hu, hr⟩ := hspelled
    obtain ⟨u, v, r, hword⟩ := exists_longest_word hu hr
    cases r with
    | ok l => exact .inl ⟨gap, rest, u, v, l, hgap, hword⟩
    | error fault =>
      obtain rfl := hword.spells.eq_numberTooLarge
      have hnext := next_of_longest (p := behind start front text) hskip hword
      rw [behind, map_down_placeBehind] at hnext
      exact .inr ⟨_, .tooLarge hgap hword, .stop hnext⟩
  · have hnone : ∀ u r, u <+: rest → ¬ Spells u r := fun u r hu hr => hspelled ⟨u, r, hu, hr⟩
    right
    cases rest with
    | nil =>
      have hend : text = gap := by rw [hgap.split, List.append_nil]
      have hnext := next_of_nil (p := behind start front text) hskip
      rw [behind, map_down_placeBehind, ← hend] at hnext
      exact ⟨_, .complete (hend ▸ hgap.isGap), .finish hnext⟩
    | cons c cs =>
      have hnext := next_of_not_spells (p := behind start front text) hskip hnone
      rw [behind, map_down_placeBehind] at hnext
      by_cases hquote : c = '"'
      · subst hquote
        exact ⟨_, .unterminated hgap (not_mem_of_not_spells hnone), .stop hnext⟩
      · rw [if_neg hquote] at hnext
        exact ⟨_, .unexpected hgap hquote hnone, .stop hnext⟩

/-! ## Asking again and again -/

theorem takes_of_leads (h : Leads front text ps front' text') :
    Takes (behind start front text) (ps.map (tokenBehind start)) (behind start front' text') := by
  induction h with
  | nil => exact .nil _
  | cons hgap hword _ ih => exact .cons (next_behind start hgap hword _) ih

theorem Takes.leads {start} {p' : Cursor} {ts : List Token}
    (h : Takes (behind start front text) ts p') :
    ∃ ps front' text', Leads front text ps front' text' ∧ ts = ps.map (tokenBehind start) ∧
      p' = behind start front' text' := by
  generalize hp : behind start front text = p at h
  induction h generalizing front text with
  | nil => exact ⟨[], front, text, .nil front text, rfl, hp.symm⟩
  | cons hnext _ ih =>
    subst hp
    obtain ⟨gap, rest, u, v, l, hgap, hword⟩ | ⟨ending, -, hend⟩ :=
      next_or_endsWith start front text
    · cases (next_behind start hgap hword front).symm.trans hnext
      obtain ⟨ps, front', text', hleads, rfl, rfl⟩ := ih rfl
      exact ⟨_, front', text', .cons hgap hword hleads, rfl, rfl⟩
    · cases hend with
      | finish h => cases h.symm.trans hnext
      | stop h => cases h.symm.trans hnext

theorem Takes.reads {p p' : Cursor} {ts ts' : List Token} {ending : Ending} (h : Takes p ts p')
    (h' : Reads p' ts' ending) : Reads p (ts ++ ts') ending := by
  induction h with
  | nil => exact h'
  | cons hnext _ ih => exact .token hnext (ih h')

theorem exists_leads_endsWith (front text : List Char) :
    ∃ ps front' text' ending, Leads front text ps front' text' ∧
      EndsWith start front' text' ending ∧ Reads (behind start front' text') [] ending := by
  obtain ⟨gap, rest, u, v, l, hgap, hword⟩ | ⟨ending, hends, hreads⟩ :=
    next_or_endsWith start front text
  · have hlt : v.length < text.length := length_lt_of_next (next_behind start hgap hword front)
    obtain ⟨ps, front', text', ending, hleads, hends, hreads⟩ :=
      exists_leads_endsWith (front ++ gap ++ u) v
    exact ⟨_, front', text', ending, .cons hgap hword hleads, hends, hreads⟩
  · exact ⟨[], front, text, ending, .nil front text, hends, hreads⟩
termination_by text.length

end Cursor

namespace Tokens

open Cursor (Takes behind)

/-- **Token lines are right.** The tokens of a text are its words, each of them as many lines below
the start as there are line ends in front of its first character, which of a string is the opening
quote. The end of the text is on its last line, an opening quote without another one and a character
that no word begins with are errors on their own lines, and without a start nothing has a location.
However many tokens have been read, they stand in front of those that are read later, as they are.
-/
theorem lines_right (source : String) (start : Option Location) :
    (∃ ps front rest, Leads [] source.toList ps front rest ∧ front ++ rest = source.toList ∧
      (ofText source start).words = ps.map (tokenBehind start) ∧
      EndsWith start front rest (ofText source start).ending ∧
      ∀ p ∈ ps, ∃ after, source.toList = p.1 ++ (p.2.text.toList ++ after)) ∧
    (∀ eof, (ofText source start).ending = .complete eof →
      eof = placeBehind start source.toList) ∧
    (start = none → (∀ t ∈ (ofText source start).words, t.location = none) ∧
      ((ofText source start).ending = .complete none ∨
        ∃ fault, (ofText source start).ending = .broken ⟨fault, none⟩)) ∧
    ∀ ts p, Takes ⟨start, source.toList⟩ ts p → ts <+: (ofText source start).words ∧
      ∃ ps front, Leads [] source.toList ps front p.rest ∧ ts = ps.map (tokenBehind start) ∧
        p.location = placeBehind start front := by
  have hbegin : (⟨start, source.toList⟩ : Cursor) = behind start [] source.toList := by
    rw [behind, placeBehind_nil]
  have hall : Cursor.Reads ⟨start, source.toList⟩ (ofText source start).words
      (ofText source start).ending := Cursor.reads_ofChars _
  obtain ⟨ps, front, rest, ending, hleads, hends, hreads⟩ :=
    Cursor.exists_leads_endsWith start [] source.toList
  have hread := (Cursor.takes_of_leads start hleads).reads hreads
  rw [List.append_nil, ← hbegin] at hread
  obtain ⟨hwords, hending⟩ := hall.unique hread
  refine ⟨⟨ps, front, rest, hleads, hleads.append_eq, hwords, hending ▸ hends, hleads.spelled⟩,
    fun eof heof => ?_, ?_, fun ts p htakes => ?_⟩
  · rw [heof] at hall
    exact hall.eof
  · rintro rfl
    refine ⟨fun t ht => ?_, hending ▸ hends.location_eq_none⟩
    rw [hwords] at ht
    obtain ⟨p, -, rfl⟩ := List.mem_map.mp ht
    rfl
  · have hmore := (htakes.reads (Cursor.reads_ofChars p)).unique hall
    rw [hbegin] at htakes
    obtain ⟨ps, front, rest, hleads, rfl, rfl⟩ := htakes.leads
    exact ⟨⟨_, hmore.1⟩, ps, front, hleads, rfl, rfl⟩

/-- A string stands on the line of its first quote, and what follows it on the line of the second
one. -/
example : (ofText "\"a\nb\" c" (some ⟨none, 1⟩)).words.map (·.location.map (·.line)) =
    [some 1, some 2] := by decide +kernel

end Tokens

end KLang
