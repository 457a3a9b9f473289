import KLang.Proofs.Lexing.Join
import KLang.Proofs.Lexing.Spelling

/-!
# The longest word comes next

A text is split by asking for its next token again and again. The next token is the longest word
behind the longest gap, and what was skipped and what was read make up the text.

* `Cursor.next`: the next token of a text and the place behind it.
* `Cursor.Reads`: asking until the text ends or breaks; `Tokens.ofChars` gives what is read then.
* `Cursor.next_longest`: the longest match, and nothing is lost.
-/

namespace KLang

variable {cs gap rest : List Char} {c : Char}

/-! ## Gaps -/

section skipping

variable (lines : Nat) (cs : List Char)

theorem newlines_append (cs cs' : List Char) : newlines (cs ++ cs') = newlines cs + newlines cs' :=
  List.count_append

theorem skipTrivia_blank (h : isBlank c = true) :
    skipTrivia false lines (c :: cs) = skipTrivia false (lines + newlines [c]) cs := by
  by_cases hc : c = '\n'
  · subst hc
    rfl
  · simp [skipTrivia, h, hc, newlines]

theorem skipTrivia_hash : skipTrivia false lines ('#' :: cs) = skipTrivia true lines cs := rfl

theorem skipTrivia_newline :
    skipTrivia true lines ('\n' :: cs) = skipTrivia false (lines + 1) cs := rfl

theorem skipTrivia_inside (h : c ≠ '\n') :
    skipTrivia true lines (c :: cs) = skipTrivia true lines cs := by
  have hc : (c != '\n') = true := by simpa using h
  simp [skipTrivia, hc, h]

theorem skipTrivia_word (h : isBlank c = false) (h' : c ≠ '#') :
    skipTrivia false lines (c :: cs) = (lines, c :: cs) := by
  simp [skipTrivia, h, h']

theorem skipTrivia_comment {body : List Char} (h : '\n' ∉ body) :
    skipTrivia true lines (body ++ '\n' :: cs) = skipTrivia false (lines + 1) cs ∧
      skipTrivia true lines body = (lines, []) := by
  induction body with
  | nil => exact ⟨skipTrivia_newline lines cs, rfl⟩
  | cons c body ih =>
    simp only [List.mem_cons, not_or] at h
    rw [List.cons_append, skipTrivia_inside _ _ (Ne.symm h.1), skipTrivia_inside _ _ (Ne.symm h.1)]
    exact ih h.2

end skipping

theorem skipTrivia_of_isGap (h : IsGap gap rest) (lines : Nat) :
    skipTrivia false lines (gap ++ rest) = skipTrivia false (lines + newlines gap) rest := by
  induction h generalizing lines with
  | nil => rfl
  | @blank c cs rest hc _ ih =>
    have hcount : newlines (c :: cs) = newlines [c] + newlines cs := newlines_append [c] cs
    rw [List.cons_append, skipTrivia_blank _ _ hc, ih, hcount, Nat.add_assoc]
  | @comment body cs rest hbody _ ih =>
    have hcount : newlines ('#' :: (body ++ '\n' :: cs)) = 1 + newlines cs := by
      have hzero : newlines ('#' :: body) = 0 := List.count_eq_zero.mpr (by simp [hbody])
      rw [← List.cons_append, newlines_append, hzero, Nat.zero_add]
      exact newlines_append ['\n'] cs
    rw [List.cons_append, List.append_assoc, List.cons_append, skipTrivia_hash,
      (skipTrivia_comment _ _ hbody).1, ih, hcount, Nat.add_assoc]
  | @lastComment body hbody =>
    have hcount : newlines ('#' :: body) = 0 := List.count_eq_zero.mpr (by simp [hbody])
    rw [List.append_nil, hcount, skipTrivia_hash, (skipTrivia_comment _ [] hbody).2]
    rfl

theorem IsGap.cons_comment (h : IsGap ('#' :: gap) rest) (hc : c ≠ '\n') :
    IsGap ('#' :: c :: gap) rest := by
  generalize hgap : '#' :: gap = g at h
  cases h with
  | nil => cases hgap
  | blank hblank =>
    cases hgap
    exact absurd hblank (by decide)
  | @comment body cs _ hbody more =>
    cases hgap
    rw [← List.cons_append]
    exact .comment (by simp [hbody, Ne.symm hc]) more
  | lastComment hbody =>
    cases hgap
    exact .lastComment (by simp [hbody, Ne.symm hc])

theorem isGap_of_skipTrivia (inComment : Bool) (lines : Nat) (cs : List Char) :
    ∃ gap, cs = gap ++ (skipTrivia inComment lines cs).2 ∧
      IsGap (if inComment then '#' :: gap else gap) (skipTrivia inComment lines cs).2 ∧
      ∀ c ∈ (skipTrivia inComment lines cs).2.head?, isBlank c = false ∧ c ≠ '#' := by
  induction cs generalizing inComment lines with
  | nil =>
    refine ⟨[], rfl, ?_, nofun⟩
    cases inComment
    · exact .nil _
    · exact .lastComment (by simp)
  | cons c cs ih =>
    cases inComment with
    | true =>
      by_cases hc : c = '\n'
      · subst hc
        obtain ⟨gap, heq, hgap, hstop⟩ := ih false (lines + 1)
        refine ⟨'\n' :: gap, congrArg ('\n' :: ·) heq, ?_, hstop⟩
        have hnil : '\n' ∉ ([] : List Char) := nofun
        exact .comment hnil hgap
      · obtain ⟨gap, heq, hgap, hstop⟩ := ih true lines
        rw [skipTrivia_inside _ _ hc]
        exact ⟨c :: gap, congrArg (c :: ·) heq, IsGap.cons_comment hgap hc, hstop⟩
    | false =>
      by_cases hblank : isBlank c = true
      · obtain ⟨gap, heq, hgap, hstop⟩ := ih false (lines + newlines [c])
        rw [skipTrivia_blank _ _ hblank]
        exact ⟨c :: gap, congrArg (c :: ·) heq, .blank hblank hgap, hstop⟩
      · by_cases hhash : c = '#'
        · subst hhash
          obtain ⟨gap, heq, hgap, hstop⟩ := ih true lines
          exact ⟨'#' :: gap, congrArg ('#' :: ·) heq, hgap, hstop⟩
        · rw [skipTrivia_word _ _ (by simpa using hblank) hhash]
          exact ⟨[], rfl, .nil _, fun d hd => by cases hd; exact ⟨by simpa using hblank, hhash⟩⟩

theorem exists_longest_gap (cs : List Char) :
    ∃ gap rest, IsLongestGap cs gap rest ∧ skipTrivia false 0 cs = (newlines gap, rest) := by
  obtain ⟨gap, heq, hgap, -⟩ := isGap_of_skipTrivia false 0 cs
  refine ⟨gap, _, ⟨heq, hgap, fun gap' rest' heq' hgap' => ?_⟩, Prod.ext ?_ rfl⟩
  · have hle := length_skipTrivia_le false (0 + newlines gap') rest'
    rw [← skipTrivia_of_isGap hgap', ← heq'] at hle
    have hlength := congrArg List.length heq
    have hlength' := congrArg List.length heq'
    rw [List.length_append] at hlength hlength'
    omega
  · have hlines := newlines_skipTrivia false 0 cs
    have hcount := congrArg newlines heq
    rw [newlines_append] at hcount
    dsimp only
    omega

theorem exists_longest_word {u text : List Char} {r : Except LexFault Lexeme} (hu : u <+: text)
    (h : Spells u r) : ∃ u v r, IsLongestWord text u v r := by
  by_cases hlonger : ∃ u' r', u' <+: text ∧ Spells u' r' ∧ u.length < u'.length
  · obtain ⟨u', r', hu', h', hlt⟩ := hlonger
    have hle := hu'.length_le
    exact exists_longest_word hu' h'
  · obtain ⟨v, rfl⟩ := hu
    refine ⟨u, v, r, rfl, h, fun u' r' hu' h' => Nat.not_lt.mp fun hlt => ?_⟩
    exact hlonger ⟨u', r', hu', h', hlt⟩
termination_by text.length - u.length

/-! ## The next token -/

/-- A text that is being split: what remains of it, and where that begins. -/
structure Cursor where
  location : Option Location
  rest : List Char

namespace Cursor

/-- The next token and the place behind it. At the end of the text there is no token, and the place
is the end. -/
def next (p : Cursor) : Except LexError (Option Token × Cursor) :=
  match skipTrivia false 0 p.rest with
  | (lines, []) => .ok (none, ⟨p.location.map (·.down lines), []⟩)
  | (lines, c :: rest) =>
    let here := p.location.map (·.down lines)
    match Lexeme.scan c rest with
    | .error fault => .error ⟨fault, here⟩
    | .ok (l, rest) => .ok (some ⟨l, here⟩, ⟨here.map (·.down l.newlines), rest⟩)

/-- The tokens that are read one after the other, and how the text ends behind them. -/
inductive Reads : Cursor → List Token → Ending → Prop
  | finish {p p' : Cursor} (h : p.next = .ok (none, p')) : Reads p [] (.complete p'.location)
  | stop {p : Cursor} {e : LexError} (h : p.next = .error e) : Reads p [] (.broken e)
  | token {p p' : Cursor} {t : Token} {ts : List Token} {ending : Ending}
      (h : p.next = .ok (some t, p')) (more : Reads p' ts ending) : Reads p (t :: ts) ending

variable {p p' : Cursor} {n : Nat}

theorem next_of_nil (h : skipTrivia false 0 p.rest = (n, [])) :
    p.next = .ok (none, ⟨p.location.map (·.down n), []⟩) := by
  rw [next, h]

theorem next_of_cons (h : skipTrivia false 0 p.rest = (n, c :: cs)) :
    p.next = match Lexeme.scan c cs with
      | .error fault => .error ⟨fault, p.location.map (·.down n)⟩
      | .ok (l, rest) => .ok (some ⟨l, p.location.map (·.down n)⟩,
          ⟨p.location.map (·.down (n + l.newlines)), rest⟩) := by
  rw [next, h]
  simp only [map_down_down]

theorem next_of_finish (h : p.next = .ok (none, p')) : p'.next = .ok (none, p') := by
  rcases hskip : skipTrivia false 0 p.rest with ⟨n, rest⟩
  cases rest with
  | nil =>
    rw [next_of_nil hskip] at h
    cases h
    rw [next_of_nil rfl, map_down_down]
    rfl
  | cons c cs =>
    rw [next_of_cons hskip] at h
    split at h <;> cases h

theorem length_lt_of_next {t : Token} (h : p.next = .ok (some t, p')) :
    p'.rest.length < p.rest.length := by
  have hle := length_skipTrivia_le false 0 p.rest
  rcases hskip : skipTrivia false 0 p.rest with ⟨n, rest⟩
  rw [hskip] at hle
  cases rest with
  | nil =>
    rw [next_of_nil hskip] at h
    cases h
  | cons c cs =>
    rw [next_of_cons hskip] at h
    split at h
    · cases h
    · rename_i hscan
      cases h
      exact Nat.lt_of_le_of_lt (Lexeme.length_scan_le hscan) hle

theorem ofChars_eq_next (p : Cursor) :
    Tokens.ofChars p.location p.rest = match p.next with
      | .error e => ⟨[], .broken e⟩
      | .ok (none, p') => ⟨[], .complete p'.location⟩
      | .ok (some t, p') => Tokens.cons t (Tokens.ofChars p'.location p'.rest) := by
  rcases hskip : skipTrivia false 0 p.rest with ⟨n, rest⟩
  cases rest with
  | nil => rw [next_of_nil hskip, Tokens.ofChars_of_nil hskip]
  | cons c cs =>
    rw [next_of_cons hskip]
    cases hscan : Lexeme.scan c cs with
    | error fault => rw [Tokens.ofChars_of_error hskip hscan]
    | ok q => rw [Tokens.ofChars_of_ok hskip hscan]

theorem reads_ofChars (p : Cursor) :
    p.Reads (Tokens.ofChars p.location p.rest).words (Tokens.ofChars p.location p.rest).ending := by
  rw [ofChars_eq_next]
  match hnext : p.next with
  | .error e => exact .stop hnext
  | .ok (none, p') => exact .finish hnext
  | .ok (some t, p') =>
    have := length_lt_of_next hnext
    exact .token hnext (reads_ofChars p')
termination_by p.rest.length

theorem Reads.unique {ts ts' : List Token} {ending ending' : Ending} (h : p.Reads ts ending)
    (h' : p.Reads ts' ending') : ts = ts' ∧ ending = ending' := by
  induction h generalizing ts' with
  | finish h => cases h' <;> simp_all
  | stop h => cases h' <;> simp_all
  | token h _ ih =>
    cases h' with
    | finish h' => cases h.symm.trans h'
    | stop h' => cases h.symm.trans h'
    | token h' more =>
      cases h.symm.trans h'
      obtain ⟨rfl, rfl⟩ := ih more
      exact ⟨rfl, rfl⟩

theorem Reads.length_le {ts : List Token} {ending : Ending} (h : p.Reads ts ending) :
    ts.length ≤ p.rest.length := by
  induction h with
  | finish | stop => exact Nat.zero_le _
  | token h _ ih => exact Nat.lt_of_le_of_lt ih (length_lt_of_next h)

theorem next_of_longest {text u v : List Char} {r : Except LexFault Lexeme}
    (hskip : skipTrivia false 0 p.rest = (n, text)) : IsLongestWord text u v r →
    p.next = match r with
      | .error fault => .error ⟨fault, p.location.map (·.down n)⟩
      | .ok l => .ok (some ⟨l, p.location.map (·.down n)⟩,
          ⟨p.location.map (·.down (n + newlines u)), v⟩) := by
  intro h
  obtain ⟨c, cs, rfl⟩ : ∃ c cs, text = c :: cs := by
    obtain ⟨c, us, rfl⟩ := List.exists_cons_of_ne_nil h.spells.ne_nil
    exact ⟨c, us ++ v, h.split⟩
  rw [next_of_cons hskip, h.scan_eq]
  cases r with
  | error fault => rfl
  | ok l =>
    have hlines := Lexeme.newlines_text_scan h.scan_eq
    rw [h.spells.toList_text] at hlines
    rw [hlines]
    rfl

theorem next_of_not_spells (hskip : skipTrivia false 0 p.rest = (n, c :: cs))
    (hnone : ∀ u r, u <+: c :: cs → ¬ Spells u r) :
    p.next = .error ⟨if c = '"' then .unterminatedString else .unexpectedCharacter c,
      p.location.map (·.down n)⟩ := by
  rw [next_of_cons hskip]
  obtain ⟨u, v, l, hcs, hu, -⟩ | ⟨rfl, hscan⟩ | ⟨hquote, hscan⟩ := Lexeme.scan_sound c cs
  · exact absurd hu (hnone u l ⟨v, hcs.symm⟩)
  · rw [hscan, if_pos rfl]
  · rw [hscan, if_neg hquote]

theorem Reads.isLayout {ts : List Token} {eof : Option Location} (h : p.Reads ts (.complete eof)) :
    IsLayout p.rest (ts.map (·.lexeme)) := by
  generalize hending : Ending.complete eof = ending at h
  induction h with
  | @finish p p' h =>
    obtain ⟨gap, rest, hgap, hskip⟩ := exists_longest_gap p.rest
    cases rest with
    | nil =>
      rw [hgap.split, List.append_nil]
      exact .nil hgap.isGap
    | cons c cs =>
      rw [next_of_cons hskip] at h
      split at h <;> cases h
  | stop h => cases hending
  | @token p p' t ts ending h more ih =>
    obtain ⟨gap, rest, hgap, hskip⟩ := exists_longest_gap p.rest
    cases rest with
    | nil =>
      rw [next_of_nil hskip] at h
      cases h
    | cons c cs =>
      rw [next_of_cons hskip] at h
      obtain ⟨u, v, r, hcs, hu, hscan⟩ | ⟨-, hscan⟩ | ⟨-, hscan⟩ := Lexeme.scan_sound c cs
      · rw [hscan] at h
        cases r with
        | error fault => cases h
        | ok l =>
          cases h
          have hsplit := hgap.split
          have hbehind := hgap.isGap
          rw [hcs] at hsplit hbehind
          rw [hsplit]
          exact .cons hbehind hu (ih hending)
      · rw [hscan] at h
        cases h
      · rw [hscan] at h
        cases h

/-- **The longest word comes next, and nothing is lost.** The longest gap is skipped first. Behind it
the text is at its end, where it stays, or the longest word that is spelled there is the next token,
or no word is spelled there. So each text is split into its tokens in as many steps, and one that
splits to its end is nothing but their spellings with gaps around them. -/
theorem next_longest (p : Cursor) :
    (∃ gap rest, IsLongestGap p.rest gap rest ∧
      let here := p.location.map (·.down (newlines gap))
      (rest = [] → p.next = .ok (none, ⟨here, []⟩)) ∧
      ((∃ u r, u <+: rest ∧ Spells u r) → ∃ u v r, IsLongestWord rest u v r ∧ 1 ≤ u.length ∧
        p.next = match r with
          | .error fault => .error ⟨fault, here⟩
          | .ok l => .ok (some ⟨l, here⟩, ⟨p.location.map (·.down (newlines gap + newlines u)), v⟩)) ∧
      ∀ c cs, rest = c :: cs → (∀ u r, u <+: rest → ¬ Spells u r) →
        p.next =
          .error ⟨if c = '"' then .unterminatedString else .unexpectedCharacter c, here⟩) ∧
    (∀ u l, Spells u (.ok l) →
      l.text.toList = u ∧ ∀ k : Keyword, l = .keyword k ↔ u = k.text.toList) ∧
    (∀ p', p.next = .ok (none, p') → p'.next = .ok (none, p')) ∧
    ∃ ts ending, p.Reads ts ending ∧ ts.length ≤ p.rest.length ∧
      Tokens.ofChars p.location p.rest = ⟨ts, ending⟩ ∧
      (∀ ts' ending', p.Reads ts' ending' → ts' = ts ∧ ending' = ending) ∧
      ∀ eof, ending = .complete eof → IsLayout p.rest (ts.map (·.lexeme)) := by
  refine ⟨?_, fun u l hu => ⟨hu.toList_text, fun k => ⟨?_, ?_⟩⟩, fun p' => next_of_finish,
    _, _, reads_ofChars p, (reads_ofChars p).length_le, rfl, fun ts' ending' h => ?_,
    fun eof heof => ?_⟩
  · obtain ⟨gap, rest, hgap, hskip⟩ := exists_longest_gap p.rest
    refine ⟨gap, rest, hgap, fun hnil => ?_, fun ⟨u, r, hu, hr⟩ => ?_, fun c cs hcs hnone => ?_⟩
    · rw [hnil] at hskip
      exact next_of_nil hskip
    · obtain ⟨u, v, r, hlongest⟩ := exists_longest_word hu hr
      exact ⟨u, v, r, hlongest, List.length_pos_iff.mpr hlongest.spells.ne_nil,
        next_of_longest hskip hlongest⟩
    · rw [hcs] at hskip hnone
      exact next_of_not_spells hskip hnone
  · rintro rfl
    exact hu.toList_text.symm
  · rintro rfl
    exact Except.ok.inj (hu.unique (.keyword k))
  · exact h.unique (reads_ofChars p)
  · have hread := reads_ofChars p
    rw [heof] at hread
    exact hread.isLayout

end Cursor

end KLang
