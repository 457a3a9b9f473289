import KLang.Proofs.Parsing.Statement

/-!
# Programs are read by the grammar

* `Program.ofText_iff_isProgram`: of a text that splits into words, exactly the programs of the
  grammar are read.
* `IsStatements.append`: statements may be put one behind the other.
-/

namespace KLang

variable {eof : Option Location}

/-! ## Statements in a row -/

theorem IsStatements.append {u v : List Token} {ss ss' : List Statement} (h : IsStatements u ss)
    (h' : IsStatements v ss') : IsStatements (u ++ v) (ss ++ ss') := by
  match h with
  | .nil => exact h'
  | .cons h more =>
    rw [List.append_assoc]
    exact .cons h (more.append h')

/-! ## All tokens -/

theorem parseAll_of_outcome {ts rest : List Token} {s : Statement}
    (h : outcome (parseStatement eof ts) = .ok (s, rest)) :
    parseAll eof ts = (s :: ·) <$> parseAll eof rest := by
  cases ts with
  | nil =>
    rw [parseStatement] at h
    · cases h
    all_goals nofun
  | cons t ts =>
    rw [parseAll]
    cases hread : parseStatement eof (t :: ts) with
    | error => rw [hread] at h; cases h
    | ok p =>
      rw [hread] at h
      cases h
      rfl

theorem parseAll_sound {ts : List Token} {ss : List Statement} (h : parseAll eof ts = .ok ss) :
    IsStatements ts ss := by
  match ts with
  | [] =>
    rw [parseAll] at h
    cases h
    exact .nil
  | t :: ts =>
    cases hread : outcome (parseStatement eof (t :: ts)) with
    | error e =>
      cases hparse : parseStatement eof (t :: ts) with
      | error e => rw [parseAll, hparse] at h; cases h
      | ok p => rw [hparse] at hread; cases hread
    | ok p =>
      have hlt := length_lt_of_outcome hread
      rw [parseAll_of_outcome hread] at h
      cases hmore : parseAll eof p.2 with
      | error e => rw [hmore] at h; cases h
      | ok ss =>
        rw [hmore] at h
        cases h
        obtain ⟨u, hu, hs⟩ := parseStatement_sound hread
        rw [hu]
        exact .cons hs (parseAll_sound hmore)
termination_by ts.length
decreasing_by exact hlt

theorem parseAll_complete {ts : List Token} {ss : List Statement} (h : IsStatements ts ss) :
    parseAll eof ts = .ok ss := by
  match h with
  | .nil => rw [parseAll]; rfl
  | @IsStatements.cons u v s ss h more =>
    have hcloses : Closes (v ++ []) := more.closes_append (by simp [Closes, front])
    rw [List.append_nil] at hcloses
    rw [parseAll_of_outcome (parseStatement_complete h hcloses), parseAll_complete more]
    rfl

theorem parseAll_eq_ok {ts : List Token} {ss : List Statement} :
    parseAll eof ts = .ok ss ↔ IsStatements ts ss :=
  ⟨parseAll_sound, parseAll_complete⟩

theorem IsStatements.unique {ts : List Token} {ss ss' : List Statement} (h : IsStatements ts ss)
    (h' : IsStatements ts ss') : ss = ss' := by
  have hread : parseAll none ts = .ok ss := parseAll_complete h
  have hread' : parseAll none ts = .ok ss' := parseAll_complete h'
  exact Except.ok.inj (hread.symm.trans hread')

theorem parseProgram_eq_ok {ts : List Token} {program : Program} :
    parseProgram eof ts = .ok program ↔ IsProgram eof ts program := by
  cases hread : parseAll eof ts with
  | error e =>
    rw [parseProgram, hread]
    constructor
    · nofun
    · rintro ⟨hss, -⟩
      rw [parseAll_complete hss] at hread
      cases hread
  | ok ss =>
    rw [parseProgram, hread]
    constructor
    · intro h
      cases h
      exact ⟨parseAll_sound hread, rfl⟩
    · rintro ⟨hss, hlocation⟩
      obtain ⟨location, statements⟩ := program
      rw [show statements = ss from hss.unique (parseAll_sound hread)]
      cases hlocation
      rfl

/-! ## Texts -/

theorem Program.ofTokens_eq_ok {ts : Tokens} {program : Program} :
    Program.ofTokens ts = .ok program ↔
      ∃ eof, ts.ending = .complete eof ∧ IsProgram eof ts.words program := by
  rw [Program.ofTokens]
  cases hending : ts.ending with
  | complete eof =>
    simp only [Ending.complete.injEq, exists_eq_left', ← parseProgram_eq_ok]
    cases parseProgram eof ts.words with
    | error p => constructor <;> nofun
    | ok program => exact ⟨fun h => by cases h; rfl, fun h => by cases h; rfl⟩
  | broken e =>
    constructor
    · intro h
      dsimp only at h
      split at h <;> cases h
    · rintro ⟨eof, h, -⟩
      cases h

theorem Program.ofText_eq_ok {source : String} {location : Option Location} {program : Program} :
    Program.ofText source location = .ok program ↔
      ∃ eof, (Tokens.ofText source location).ending = .complete eof ∧
        IsProgram eof (Tokens.ofText source location).words program :=
  Program.ofTokens_eq_ok

theorem Program.eq_parse_of_ofText {source : String} {location : Option Location}
    {error : SyntaxError} (hending : (Tokens.ofText source location).ending = .complete eof)
    (h : Program.ofText source location = .error error) : ∃ p, error = .parse p := by
  rw [Program.ofText, Program.ofTokens, hending] at h
  dsimp only at h
  cases hread : parseProgram eof (Tokens.ofText source location).words with
  | error p =>
    rw [hread] at h
    cases h
    exact ⟨p, rfl⟩
  | ok program =>
    rw [hread] at h
    cases h

/-- **A text is a program exactly if its words derive from the grammar of statements.** The program
is the one that the words derive, of which there is at most one, and every other text is refused by
the parser. The expressions and printed items in it are the tokens that are read as such, up to a
word that binds nothing in that mode. -/
theorem Program.ofText_iff_isProgram (source : String) (location : Option Location)
    (h : (Tokens.ofText source location).ending = .complete eof) :
    (∀ program, Program.ofText source location = .ok program ↔
      IsProgram eof (Tokens.ofText source location).words program) ∧
    (∀ program program', IsProgram eof (Tokens.ofText source location).words program →
      IsProgram eof (Tokens.ofText source location).words program' → program = program') ∧
    (∀ (mode : Mode) (u rest : List Token) (e : Expr), frontPrecedence mode rest = .lowest →
      (outcome (parseExpr eof mode (u ++ rest)) = .ok (e, rest) ↔ IsExpr mode u e)) ∧
    ∀ error, Program.ofText source location = .error error → ∃ p, error = .parse p := by
  have hiff (program : Program) : Program.ofText source location = .ok program ↔
      IsProgram eof (Tokens.ofText source location).words program := by
    rw [Program.ofText_eq_ok]
    simp only [h, Ending.complete.injEq, exists_eq_left']
  refine ⟨hiff, fun program program' h h' => ?_, fun mode u rest e hrest => ?_,
    fun error => Program.eq_parse_of_ofText h⟩
  · exact Except.ok.inj (((hiff program).mpr h).symm.trans ((hiff program').mpr h'))
  · exact outcome_parseExpr_append_eq_ok hrest

theorem Program.ofText_iff_isProgram_branch :
    (Tokens.ofText "if (x) \x7b \x7d else \x7b return; \x7d" none).ending = .complete none ∧
      Program.ofText "if (x) \x7b \x7d else \x7b return; \x7d" none =
        .ok ⟨none, [.branch none [⟨none, .variable none ⟨none, "x"⟩, ⟨none, []⟩⟩]
          (some ⟨none, [.returnValue none none]⟩)]⟩ := by
  have hending : (Tokens.ofText "if (x) \x7b \x7d else \x7b return; \x7d" none).ending =
      .complete none := by decide +kernel
  have hwords : (Tokens.ofText "if (x) \x7b \x7d else \x7b return; \x7d" none).words =
      [.keyword .ifWord, .symbol .lparen, .identifier "x", .symbol .rparen, .symbol .lbrace,
        .symbol .rbrace, .keyword .elseWord, .symbol .lbrace, .keyword .returnWord,
        .symbol .semicolon, .symbol .rbrace].map (⟨·, none⟩) := by decide +kernel
  have hcondition : IsExpr .plain [⟨.identifier "x", none⟩] (.variable none ⟨none, "x"⟩) :=
    (Derives.name none "x").of_primary
  refine ⟨hending, ((ofText_iff_isProgram _ none hending).1 _).mpr ?_⟩
  rw [hwords]
  exact ⟨.cons (.branch none (.mk none (.mk none none hcondition) (.mk none none .nil)) .nil
    (.given none (.mk none none (.cons (.returnNothing none none) .nil)))) .nil, rfl⟩

end KLang
