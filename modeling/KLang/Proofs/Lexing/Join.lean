import KLang.Proofs.Lexing.Scan

/-!
# Texts one behind the other

* `skipTrivia_append_of_cons`, `skipTrivia_append_of_nil`: what is skipped at the front of a text.
* `Tokens.ofChars_join`: with a line end between them, two texts are split into words apart from
  each other.
-/

namespace KLang

variable {cs rest : List Char} {c : Char} {n : Nat}

/-! ## Blanks and comments -/

theorem skipTrivia_cons (inComment : Bool) (c : Char) :
    (∃ inComment', ∀ lines cs, skipTrivia inComment lines (c :: cs) =
      skipTrivia inComment' (lines + newlines [c]) cs) ∨
    ∀ lines cs, skipTrivia inComment lines (c :: cs) = (lines, c :: cs) := by
  have hnext (lines : Nat) : (if c == '\n' then lines + 1 else lines) = lines + newlines [c] := by
    rw [newlines, List.count_cons, List.count_nil]
    split <;> rfl
  simp only [skipTrivia, hnext]
  cases inComment with
  | true => exact .inl ⟨_, fun _ _ => rfl⟩
  | false =>
    by_cases hblank : isBlank c = true
    · exact .inl ⟨false, fun _ _ => by simp [hblank]⟩
    · by_cases hhash : c = '#'
      · subst hhash
        exact .inl ⟨true, fun _ _ => rfl⟩
      · exact .inr fun _ _ => by simp [hblank, hhash]

theorem skipTrivia_add (inComment : Bool) (lines k : Nat) (cs : List Char) :
    skipTrivia inComment (lines + k) cs =
      ((skipTrivia inComment lines cs).1 + k, (skipTrivia inComment lines cs).2) := by
  induction cs generalizing inComment lines with
  | nil => rfl
  | cons c cs ih =>
    obtain ⟨inComment', h⟩ | h := skipTrivia_cons inComment c
    · rw [h, h, Nat.add_right_comm, ih]
    · rw [h, h]

theorem newlines_skipTrivia (inComment : Bool) (lines : Nat) (cs : List Char) :
    (skipTrivia inComment lines cs).1 + newlines (skipTrivia inComment lines cs).2 =
      lines + newlines cs := by
  induction cs generalizing inComment lines with
  | nil => rfl
  | cons c cs ih =>
    obtain ⟨inComment', h⟩ | h := skipTrivia_cons inComment c
    · rw [h, ih, Nat.add_assoc, newlines, newlines, ← List.count_append]
      rfl
    · rw [h]

theorem skipTrivia_append_of_cons {inComment : Bool} {lines : Nat}
    (h : skipTrivia inComment lines cs = (n, c :: rest)) (x : List Char) :
    skipTrivia inComment lines (cs ++ x) = (n, c :: (rest ++ x)) := by
  induction cs generalizing inComment lines with
  | nil => cases h
  | cons d cs ih =>
    rw [List.cons_append]
    obtain ⟨inComment', hstep⟩ | hstep := skipTrivia_cons inComment d
    · rw [hstep] at h ⊢
      exact ih h
    · rw [hstep] at h ⊢
      cases h
      rfl

theorem skipTrivia_append_of_nil {inComment : Bool} {lines : Nat}
    (h : skipTrivia inComment lines cs = (n, [])) (x : List Char) :
    skipTrivia inComment lines (cs ++ '\n' :: x) = skipTrivia false (n + 1) x := by
  induction cs generalizing inComment lines with
  | nil =>
    cases h
    cases inComment <;> rfl
  | cons d cs ih =>
    rw [List.cons_append]
    obtain ⟨inComment', hstep⟩ | hstep := skipTrivia_cons inComment d
    · rw [hstep] at h ⊢
      exact ih h
    · rw [hstep] at h
      cases h

/-! ## Tokens -/

theorem Location.down_down (l : Location) (m n : Nat) : (l.down m).down n = l.down (m + n) := by
  simp [down, Int.add_assoc]

theorem map_down_down (here : Option Location) (m n : Nat) :
    (here.map (·.down m)).map (·.down n) = here.map (·.down (m + n)) := by
  cases here with
  | none => rfl
  | some l => exact congrArg some (l.down_down m n)

theorem map_down_zero (here : Option Location) : here.map (·.down 0) = here := by
  cases here <;> simp [Location.down]

namespace Tokens

variable {here : Option Location}

theorem ofChars_of_nil (h : skipTrivia false 0 cs = (n, [])) :
    ofChars here cs = ⟨[], .complete (here.map (·.down n))⟩ := by
  rw [ofChars]
  split
  · rename_i heq
    rw [h] at heq
    cases heq
    rfl
  · rename_i heq
    rw [h] at heq
    cases heq

theorem ofChars_of_error {fault : LexFault} (h : skipTrivia false 0 cs = (n, c :: rest))
    (hscan : Lexeme.scan c rest = .error fault) :
    ofChars here cs = ⟨[], .broken ⟨fault, here.map (·.down n)⟩⟩ := by
  rw [ofChars]
  split
  · rename_i heq
    rw [h] at heq
    cases heq
  · rename_i heq
    rw [h] at heq
    cases heq
    split
    · rename_i hl
      rw [hscan] at hl
      cases hl
      rfl
    · rename_i hl
      rw [hscan] at hl
      cases hl

theorem ofChars_of_ok {l : Lexeme} {rest' : List Char} (h : skipTrivia false 0 cs = (n, c :: rest))
    (hscan : Lexeme.scan c rest = .ok (l, rest')) :
    ofChars here cs =
      cons ⟨l, here.map (·.down n)⟩ (ofChars (here.map (·.down (n + l.newlines))) rest') := by
  rw [ofChars]
  split
  · rename_i heq
    rw [h] at heq
    cases heq
  · rename_i heq
    rw [h] at heq
    cases heq
    split
    · rename_i hl
      rw [hscan] at hl
      cases hl
    · rename_i hl
      rw [hscan] at hl
      cases hl
      dsimp only
      rw [map_down_down]

theorem ofChars_of_skipTrivia {cs' : List Char}
    (h : skipTrivia false 0 cs =
      ((skipTrivia false 0 cs').1 + n, (skipTrivia false 0 cs').2)) :
    ofChars here cs = ofChars (here.map (·.down n)) cs' := by
  rcases hskip : skipTrivia false 0 cs' with ⟨k, rest⟩
  rw [hskip, Nat.add_comm] at h
  cases rest with
  | nil => rw [ofChars_of_nil h, ofChars_of_nil hskip, map_down_down]
  | cons c rest =>
    cases hscan : Lexeme.scan c rest with
    | error fault => rw [ofChars_of_error h hscan, ofChars_of_error hskip hscan, map_down_down]
    | ok p =>
      rw [ofChars_of_ok h hscan, ofChars_of_ok hskip hscan, map_down_down, map_down_down,
        Nat.add_assoc]

/-- Two texts with a line end between them have the words of the first one and then those of the
second one. -/
theorem ofChars_join {cs : List Char} {here eof : Option Location}
    (h : (ofChars here cs).ending = .complete eof) (cs' : List Char) :
    ofChars here (cs ++ '\n' :: cs') =
      ⟨(ofChars here cs).words ++ (ofChars (here.map (·.down (newlines cs + 1))) cs').words,
        (ofChars (here.map (·.down (newlines cs + 1))) cs').ending⟩ := by
  rcases hskip : skipTrivia false 0 cs with ⟨n, rest⟩
  have hlines := newlines_skipTrivia false 0 cs
  rw [hskip] at hlines
  cases rest with
  | nil =>
    obtain rfl : n = newlines cs := by simpa [newlines] using hlines
    have hjoin : skipTrivia false 0 (cs ++ '\n' :: cs') =
        ((skipTrivia false 0 cs').1 + (newlines cs + 1), (skipTrivia false 0 cs').2) := by
      rw [skipTrivia_append_of_nil hskip, ← skipTrivia_add, Nat.zero_add]
    rw [ofChars_of_skipTrivia hjoin, ofChars_of_nil hskip]
    rfl
  | cons c rest =>
    cases hscan : Lexeme.scan c rest with
    | error fault =>
      rw [ofChars_of_error hskip hscan] at h
      cases h
    | ok p =>
      obtain ⟨l, rest'⟩ := p
      have hlt : rest'.length < cs.length := by
        have hlength := length_skipTrivia_le false 0 cs
        rw [hskip] at hlength
        exact Nat.lt_of_le_of_lt (Lexeme.length_scan_le hscan) hlength
      rw [ofChars_of_ok hskip hscan] at h
      have hnewlines := Lexeme.newlines_scan hscan
      have hdown : n + l.newlines + (newlines rest' + 1) = newlines cs + 1 := by
        simp only at hlines
        omega
      have hjoin := skipTrivia_append_of_cons hskip ('\n' :: cs')
      have hscan' := Lexeme.scan_append (x := cs') (show '\n' ∈ breaks by decide) hscan
      rw [ofChars_of_ok hjoin hscan', ofChars_of_ok hskip hscan, ofChars_join h cs', map_down_down,
        hdown]
      rfl
termination_by cs.length

end Tokens

end KLang
