import KLang.Text.Blank
import KLang.Token.Basic

/-!
# Splitting a text into tokens

Between tokens, blanks and comments are skipped. A token is the longest word at the front of what
remains; a text where no word begins ends the list with an error.

* `skipTrivia`: blanks and comments.
* `Lexeme.scan`: one word from the front of a text.
* `Lexeme.length_scan_le`: a word is never empty, so splitting ends.
* `Tokens.ofChars`: the tokens of a text.
-/

namespace KLang

/-- Whether an identifier can begin with the character. -/
def isLetter (c : Char) : Bool := c.isAlpha || c == '_'

/-- Whether an identifier can go on with the character. -/
def isWordChar (c : Char) : Bool := isLetter c || c.isDigit

/-- The number of line ends in a text. -/
def newlines (cs : List Char) : Nat := cs.count '\n'

/--
Skips blanks and comments, of which a comment goes up to the end of its line. Gives the number of
lines passed, added to `lines`, and what remains.
-/
def skipTrivia (inComment : Bool) (lines : Nat) : List Char → Nat × List Char
  | [] => (lines, [])
  | c :: cs =>
    let next := if c == '\n' then lines + 1 else lines
    if inComment then skipTrivia (c != '\n') next cs
    else if isBlank c then skipTrivia false next cs
    else if c == '#' then skipTrivia true lines cs
    else (lines, c :: cs)

theorem length_skipTrivia_le (inComment : Bool) (lines : Nat) (cs : List Char) :
    (skipTrivia inComment lines cs).2.length ≤ cs.length := by
  induction cs generalizing inComment lines with
  | nil => simp [skipTrivia]
  | cons c cs ih =>
    simp only [skipTrivia, List.length_cons]
    repeat' split
    all_goals first
      | exact Nat.le_succ_of_le (ih _ _)
      | simp

/-- The keyword or identifier with the given spelling. -/
def Lexeme.ofWord (word : String) : Lexeme :=
  match Keyword.ofText? word with
  | some k => .keyword k
  | none => .identifier word

/-- The symbol at the front of a text and what follows it. -/
def Symbol.scan? (cs : List Char) : Option (Symbol × List Char) :=
  (Symbol.all.find? (·.chars.isPrefixOf cs)).map fun s => (s, cs.drop s.chars.length)

/-- The digits of a hexadecimal literal `0x…` at the front of a text and what follows them. -/
def Numeral.hexSpan? : List Char → Option (List Char × List Char)
  | '0' :: 'x' :: cs =>
    match cs.takeWhile (hexDigit? · |>.isSome) with
    | [] => none
    | ds => some (ds, cs.dropWhile (hexDigit? · |>.isSome))
  | _ => none

namespace Lexeme

/-- The numeric literal at the front of a text and what follows it, if there is one. -/
def scanNumber? (cs : List Char) : Option (Except LexFault (Lexeme × List Char)) :=
  match Numeral.hexSpan? cs with
  | some (ds, rest) =>
    let value := Number.ofNat (Numeral.hex ds)
    some <|
      if value.isFinite then .ok (.number (String.ofList ('0' :: 'x' :: ds)) value, rest)
      else .error .numberTooLarge
  | none =>
    (Numeral.decimalSpan? cs).map fun (text, rest) =>
      .ok (.number (String.ofList text) (.ofDecimal false (Numeral.decimal text)), rest)

/-- The word at the front of a text that begins with neither a blank nor a comment. -/
def scan (c : Char) (cs : List Char) : Except LexFault (Lexeme × List Char) :=
  if isLetter c then
    .ok (ofWord (String.ofList (c :: cs.takeWhile isWordChar)), cs.dropWhile isWordChar)
  else if c == '"' then
    match cs.dropWhile (· != '"') with
    | [] => .error .unterminatedString
    | _ :: rest => .ok (.string (String.ofList (cs.takeWhile (· != '"'))), rest)
  else
    match scanNumber? (c :: cs) with
    | some result => result
    | none =>
      match Symbol.scan? (c :: cs) with
      | some (s, rest) => .ok (.symbol s, rest)
      | none => .error (.unexpectedCharacter c)

/-- The number of line ends within a word. -/
def newlines : Lexeme → Nat
  | .string text => KLang.newlines text.toList
  | _ => 0

end Lexeme

/-! ## A word is never empty -/

theorem length_dropWhile_le {α : Type} (p : α → Bool) (l : List α) :
    (l.dropWhile p).length ≤ l.length := by
  induction l with
  | nil => simp
  | cons a l ih =>
    rw [List.dropWhile_cons]
    split
    · exact Nat.le_succ_of_le ih
    · exact Nat.le_refl _

theorem Symbol.length_scan?_lt {cs rest : List Char} {s : Symbol}
    (h : Symbol.scan? cs = some (s, rest)) : rest.length < cs.length := by
  obtain ⟨t, ht, heq⟩ := Option.map_eq_some_iff.mp h
  obtain ⟨rfl, rfl⟩ := Prod.mk.inj heq
  have hp := List.find?_some (p := fun s : Symbol => s.chars.isPrefixOf cs) ht
  have hp := (List.isPrefixOf_iff_prefix.mp hp).length_le
  have : 0 < t.chars.length := by cases t <;> decide
  rw [List.length_drop]
  omega

theorem Numeral.length_hexSpan?_lt {cs ds rest : List Char}
    (h : hexSpan? cs = some (ds, rest)) : rest.length < cs.length := by
  unfold hexSpan? at h
  split at h
  · rename_i cs
    have := length_dropWhile_le (hexDigit? · |>.isSome) cs
    split at h
    · simp at h
    · obtain ⟨-, rfl⟩ := Prod.mk.inj (Option.some.inj h)
      simp only [List.length_cons]
      omega
  · simp at h

theorem Numeral.length_signSpan_le (cs : List Char) : (signSpan cs).2.length ≤ cs.length := by
  unfold signSpan
  split <;> simp

theorem Numeral.length_exponentSpan?_le {cs part rest : List Char}
    (h : exponentSpan? cs = some (part, rest)) : rest.length ≤ cs.length := by
  cases cs with
  | nil => simp [exponentSpan?] at h
  | cons mark cs =>
    simp only [exponentSpan?] at h
    split at h
    · obtain ⟨-, rfl⟩ := Prod.mk.inj (Option.some.inj h)
      have := length_dropWhile_le Char.isDigit (signSpan cs).2
      have := length_signSpan_le cs
      simp only [List.length_cons]
      omega
    · simp at h

theorem Numeral.length_withExponent_le (mantissa rest : List Char) :
    (withExponent mantissa rest).2.length ≤ rest.length := by
  unfold withExponent
  split
  · rename_i h
    exact length_exponentSpan?_le h
  · exact Nat.le_refl _

theorem Numeral.length_fractionSpan (cs : List Char) :
    (fractionSpan cs).1.length + (fractionSpan cs).2.length = cs.length := by
  unfold fractionSpan
  split
  · rename_i cs
    have := congrArg List.length (List.takeWhile_append_dropWhile (p := Char.isDigit) (l := cs))
    simp only [List.length_append, List.length_cons] at this ⊢
    omega
  · simp

theorem Numeral.length_decimalSpan?_lt {cs text rest : List Char}
    (h : decimalSpan? cs = some (text, rest)) : rest.length < cs.length := by
  have hsplit :=
    congrArg List.length (List.takeWhile_append_dropWhile (p := Char.isDigit) (l := cs))
  have hfraction := length_fractionSpan (cs.dropWhile Char.isDigit)
  rw [List.length_append] at hsplit
  simp only [decimalSpan?] at h
  split at h
  · simp at h
  · rename_i hdigit
    have hrest := congrArg Prod.snd (Option.some.inj h)
    have := length_withExponent_le
      (cs.takeWhile Char.isDigit ++ (fractionSpan (cs.dropWhile Char.isDigit)).1)
      (fractionSpan (cs.dropWhile Char.isDigit)).2
    rw [hrest] at this
    simp only [← List.length_eq_zero_iff] at hdigit this
    omega

theorem Lexeme.length_scan_le {c : Char} {cs rest : List Char} {l : Lexeme}
    (h : scan c cs = .ok (l, rest)) : rest.length ≤ cs.length := by
  unfold scan at h
  split at h
  · obtain ⟨-, rfl⟩ := Prod.mk.inj (Except.ok.inj h)
    exact length_dropWhile_le _ _
  split at h
  · have hd := length_dropWhile_le (· != '"') cs
    split at h
    · simp at h
    · rename_i hr
      obtain ⟨-, rfl⟩ := Prod.mk.inj (Except.ok.inj h)
      rw [hr] at hd
      exact Nat.le_of_succ_le hd
  split at h
  · rename_i result hn
    subst h
    unfold scanNumber? at hn
    split at hn
    · rename_i hs
      have := Numeral.length_hexSpan?_lt hs
      simp only [List.length_cons] at this
      have hn := Option.some.inj hn
      split at hn
      · obtain ⟨-, rfl⟩ := Prod.mk.inj (Except.ok.inj hn)
        omega
      · simp at hn
    · rw [Option.map_eq_some_iff] at hn
      obtain ⟨⟨t, r⟩, hs, hn⟩ := hn
      obtain ⟨-, rfl⟩ := Prod.mk.inj (Except.ok.inj hn)
      have := Numeral.length_decimalSpan?_lt hs
      simp only [List.length_cons] at this
      omega
  · split at h
    · rename_i hs
      obtain ⟨-, rfl⟩ := Prod.mk.inj (Except.ok.inj h)
      have := Symbol.length_scan?_lt hs
      simp only [List.length_cons] at this
      omega
    · simp at h

/-! ## The tokens of a text -/

namespace Tokens

/-- The tokens with one more in front. -/
def cons (t : Token) (ts : Tokens) : Tokens := { ts with words := t :: ts.words }

/-- The tokens of a text whose first character is at `here`. -/
def ofChars (here : Option Location) (cs : List Char) : Tokens :=
  match _hs : skipTrivia false 0 cs with
  | (lines, []) => ⟨[], .complete (here.map (·.down lines))⟩
  | (lines, c :: rest) =>
    let here := here.map (·.down lines)
    match _hl : Lexeme.scan c rest with
    | .error fault => ⟨[], .broken ⟨fault, here⟩⟩
    | .ok (l, rest) => cons ⟨l, here⟩ (ofChars (here.map (·.down l.newlines)) rest)
termination_by cs.length
decreasing_by
  have hl := Lexeme.length_scan_le _hl
  have hs := length_skipTrivia_le false 0 cs
  rw [_hs] at hs
  simp only [List.length_cons] at hs
  omega

/-- The tokens of a program text that begins at the given location. -/
def ofText (source : String) (location : Option Location) : Tokens :=
  ofChars location source.toList

end Tokens

end KLang
