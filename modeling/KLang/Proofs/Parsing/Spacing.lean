import KLang.Proofs.Lexing.Layout
import KLang.Proofs.Parsing.Relocation

/-!
# Layout does not matter

The words of a text may be written out again with other blanks and comments between them. The new
text is split into the same words, so it is the same program with its nodes at other lines, or it
fails to be a program for the same reason.

* `unnumbered`: locations without their lines.
* `Tokens.relocate_ofText`: without lines, the tokens of a text are its words in its file.
* `Program.ofText_spaced`: the result.
-/

namespace KLang

/-! ## Locations without lines -/

/-- The location with its line forgotten. -/
def unnumbered (location : Option Location) : Option Location :=
  location.map fun l => { l with line := 0 }

theorem unnumbered_down (location : Option Location) (n : Nat) :
    unnumbered (location.map (·.down n)) = unnumbered location := by
  cases location <;> rfl

/-! ## The words of a text -/

theorem IsLayout.spells {cs : List Char} {ls : List Lexeme} (h : IsLayout cs ls) :
    ∀ l ∈ ls, Spells l.text.toList (.ok l) := by
  induction h with
  | nil => exact fun l hl => absurd hl List.not_mem_nil
  | cons _ hu _ ih =>
    refine List.forall_mem_cons.mpr ⟨?_, ih⟩
    rwa [hu.toList_text]

namespace Tokens

variable {source text : String} {location location' eof eof' : Option Location}

theorem reads_ofText (source : String) (location : Option Location) :
    Cursor.Reads ⟨location, source.toList⟩ (ofText source location).words
      (ofText source location).ending :=
  Cursor.reads_ofChars ⟨location, source.toList⟩

theorem spells_ofText (h : (ofText source location).ending = .complete eof) :
    ∀ l ∈ (ofText source location).words.map (·.lexeme), Spells l.text.toList (.ok l) :=
  (h ▸ reads_ofText source location).isLayout.spells

theorem unnumbered_ending (h : (ofText source location).ending = .complete eof) :
    unnumbered eof = unnumbered location := by
  have hread := reads_ofText source location
  rw [h] at hread
  rw [hread.eof, unnumbered_down]

/-- Without lines, the tokens of a text are its words in its file. -/
theorem relocate_ofText (source : String) (location : Option Location) :
    (ofText source location).words.map (Token.relocate unnumbered) =
      ((ofText source location).words.map (·.lexeme)).map (⟨·, unnumbered location⟩) := by
  rw [List.map_map]
  refine List.map_congr_left fun t ht => ?_
  obtain ⟨n, -, hlocation⟩ := (reads_ofText source location).location t ht
  rw [Token.relocate, hlocation, unnumbered_down]
  rfl

end Tokens

/-! ## Programs without lines -/

namespace Program

variable {source text : String} {location location' eof eof' : Option Location}

theorem ofText_of_complete (h : (Tokens.ofText source location).ending = .complete eof) :
    Program.ofText source location =
      (parseProgram eof (Tokens.ofText source location).words).mapError .parse := by
  rw [Program.ofText, Program.ofTokens, h]

theorem parseProgram_of_words (h : (Tokens.ofText source location).ending = .complete eof)
    (h' : (Tokens.ofText text location').ending = .complete eof')
    (hfile : unnumbered location' = unnumbered location)
    (hwords : (Tokens.ofText text location').words.map (·.lexeme) =
      (Tokens.ofText source location).words.map (·.lexeme)) :
    ((parseProgram eof' (Tokens.ofText text location').words).map
        (Block.relocate unnumbered)).mapError (ParseError.relocate unnumbered) =
      ((parseProgram eof (Tokens.ofText source location).words).map
        (Block.relocate unnumbered)).mapError (ParseError.relocate unnumbered) := by
  rw [← parseProgram_relocate, ← parseProgram_relocate, Tokens.relocate_ofText,
    Tokens.relocate_ofText, Tokens.unnumbered_ending h, Tokens.unnumbered_ending h', hfile, hwords]

/-- **Layout does not matter.** The words of a text are written out again with gaps between them,
perhaps gaps in front and behind, and at any line of the same file. The new text is split into the
same words and nothing else. It is the same program up to the lines of its nodes, or it is refused for
the same reason. -/
theorem ofText_spaced {gap body : List Char}
    (hsource : (Tokens.ofText source location).ending = .complete eof)
    (hfile : unnumbered location' = unnumbered location)
    (hbody : IsSpaced ((Tokens.ofText source location).words.map (·.lexeme)) body)
    (hgap : IsGap gap body) (htext : text.toList = gap ++ body) :
    ((Tokens.ofText text location').words.map (·.lexeme) =
      (Tokens.ofText source location).words.map (·.lexeme)) ∧
    (∃ eof', (Tokens.ofText text location').ending = .complete eof') ∧
    (∀ program, Program.ofText source location = .ok program →
      ∃ program', Program.ofText text location' = .ok program' ∧
        program'.relocate unnumbered = program.relocate unnumbered) ∧
    ∀ error, Program.ofText source location = .error error →
      ∃ p p', error = .parse p ∧ Program.ofText text location' = .error (.parse p') ∧
        p'.fault = p.fault := by
  have hsplit := hbody.isSplit (Tokens.spells_ofText hsource) hgap
  rw [← htext] at hsplit
  obtain ⟨hwords, hending⟩ := Tokens.ofChars_of_isSplit hsplit location'
  have hparse := parseProgram_of_words hsource hending hfile hwords
  refine ⟨hwords, ⟨_, hending⟩, ?_⟩
  rw [ofText_of_complete hsource, ofText_of_complete hending]
  revert hparse
  cases parseProgram eof (Tokens.ofText source location).words with
  | error p =>
    cases parseProgram _ (Tokens.ofText text location').words with
    | ok program' => nofun
    | error p' =>
      intro hparse
      have hfault : (p'.relocate unnumbered).fault = (p.relocate unnumbered).fault :=
        congrArg ParseError.fault (Except.error.inj hparse)
      refine ⟨fun program h => (nomatch h), fun error h => ?_⟩
      cases h
      exact ⟨p, p', rfl, rfl, hfault⟩
  | ok program =>
    cases parseProgram _ (Tokens.ofText text location').words with
    | error p' => nofun
    | ok program' =>
      intro hparse
      refine ⟨fun program h => ?_, fun error h => (nomatch h)⟩
      cases h
      exact ⟨program', rfl, Except.ok.inj hparse⟩

theorem ofText_spaced_return :
    (Tokens.ofText "return;" none).ending = .complete none ∧
      (Tokens.ofText "#a\nreturn\t; # b" none).words = (Tokens.ofText "return;" none).words ∧
      ∃ program, Program.ofText "#a\nreturn\t; # b" none = .ok program := by
  have hending : (Tokens.ofText "return;" none).ending = .complete none := by decide +kernel
  have hwords : (Tokens.ofText "return;" none).words =
      [⟨.keyword .returnWord, none⟩, ⟨.symbol .semicolon, none⟩] := by decide +kernel
  have hprogram : ∃ program, Program.ofText "return;" none = .ok program := by
    refine ⟨⟨none, [.returnValue none none]⟩, ofText_eq_ok.mpr ⟨none, hending, ?_⟩⟩
    rw [hwords]
    exact ⟨.cons (.returnNothing none none) .nil, rfl⟩
  have hbody : IsSpaced ((Tokens.ofText "return;" none).words.map (·.lexeme))
      "return\t; # b".toList := by
    rw [hwords]
    have hcomment : '\n' ∉ [' ', 'b'] := by decide
    have hlast : IsGap (' ' :: '#' :: [' ', 'b']) [] := .blank rfl (.lastComment hcomment)
    have htab : IsGap ['\t'] "; # b".toList := .blank rfl (.nil _)
    have hne : ['\t'] ≠ [] := nofun
    exact .cons hne htab (.last hlast)
  have hcomment : '\n' ∉ ['a'] := by decide
  have hgap : IsGap ('#' :: (['a'] ++ ['\n'])) "return\t; # b".toList :=
    .comment hcomment (.nil _)
  have htext : "#a\nreturn\t; # b".toList =
      '#' :: (['a'] ++ ['\n']) ++ "return\t; # b".toList := by decide +kernel
  obtain ⟨hsame, -, hread, -⟩ := @ofText_spaced _ _ _ none _ _ _ hending rfl hbody hgap htext
  obtain ⟨program, hprogram⟩ := hprogram
  obtain ⟨program', hprogram', -⟩ := hread program hprogram
  exact ⟨hending, by decide +kernel, program', hprogram'⟩

end Program

end KLang
