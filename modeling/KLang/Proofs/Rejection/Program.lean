import KLang.Proofs.Parsing.Program
import KLang.Proofs.Rejection.Statement

/-!
# Programs fail at the earliest token

* `Program.error_earliest`: what stands before the reported token begins some program, and with that
  token it begins none.
-/

namespace KLang

variable {eof : Option Location} {ts : List Token}

/-- All tokens as statements, with nothing behind them. -/
def readAll (eof : Option Location) (ts : List Token) :
    Except ParseError (List Statement × List Token) :=
  (parseAll eof ts).map fun ss => (ss, [])

theorem readAll_cons (t : Token) (ts : List Token) :
    readAll eof (t :: ts) = (do
      let (s, rest) ← outcome (parseStatement eof (t :: ts))
      let (ss, rest) ← readAll eof rest
      return (s :: ss, rest)) := by
  rw [readAll, parseAll]
  cases parseStatement eof (t :: ts) with
  | error p => rfl
  | ok r =>
    simp only [outcome_ok, ok_bind, readAll]
    cases parseAll eof r.rest <;> rfl

theorem readAll_eq_ok {rest : List Token} {ss : List Statement} :
    readAll eof ts = .ok (ss, rest) ↔ IsStatements ts ss ∧ rest = [] := by
  rw [readAll, ← parseAll_eq_ok]
  cases parseAll eof ts with
  | error p => simp [Except.map]
  | ok ss' =>
    simp only [Except.map, Except.ok.injEq, Prod.mk.injEq]
    exact and_congr_right fun _ => eq_comm

theorem readAll_early (ts : List Token) :
    Early eof (readAll eof) (Viable IsStatements) ts := by
  match ts with
  | [] =>
    refine .congr (fun ts' hhead => ?_) (.pure [])
    rw [List.head?_eq_none_iff.mp hhead, readAll, parseAll]
    rfl
  | t :: ts =>
    have hfirst : Early eof (fun ts => do
        let (s, rest) ← outcome (parseStatement eof ts)
        let (ss, rest) ← readAll eof rest
        return (s :: ss, rest)) (Viable IsStatements) (t :: ts) := by
      refine Follows.bind ⟨parseStatement_early (t :: ts), fun s rest h => parseStatement_sound h⟩ []
        (fun u s hs => ?_) fun u s rest _ hs hread => ?_
      · exact .of_append (.of_is (IsStatements.cons hs .nil))
      have hlt := length_lt_of_outcome hread
      refine Follows.bind ⟨readAll_early rest, fun ss rest' h => ?_⟩ _ (fun v ss hss => ?_)
        fun v ss rest _ _ _ => .pure _
      · obtain ⟨hss, rfl⟩ := readAll_eq_ok.mp h
        exact ⟨rest, (List.append_nil _).symm, hss⟩
      · exact .of_is (IsStatements.cons hs hss)
    refine .congr (fun ts' hhead => ?_) hfirst
    obtain ⟨ts', rfl⟩ := List.head?_eq_some_iff.mp hhead
    exact readAll_cons t ts'
termination_by ts.length
decreasing_by exact hlt

theorem readAll_of_ofText {source : String} {location : Option Location} {p : ParseError}
    (hending : (Tokens.ofText source location).ending = .complete eof)
    (h : Program.ofText source location = .error (.parse p)) :
    readAll eof (Tokens.ofText source location).words = .error p := by
  rw [Program.ofText, Program.ofTokens, hending] at h
  dsimp only at h
  rw [parseProgram] at h
  rw [readAll]
  cases hread : parseAll eof (Tokens.ofText source location).words with
  | error q =>
    rw [hread] at h
    cases h
    rfl
  | ok ss =>
    rw [hread] at h
    cases h

theorem FailsAt.not_isStatements {before reported us : List Token} {p : ParseError}
    {Good : List Token → Prop} {ss : List Statement}
    (h : FailsAt eof (readAll eof) Good before reported p)
    (hus : us.take (before.length + max 1 p.fault.ahead) =
      (before ++ (reported ++ p.rest)).take (before.length + max 1 p.fault.ahead)) :
    ¬ IsStatements us ss := by
  intro hss
  have hread : readAll eof us = .ok (ss, []) := readAll_eq_ok.mpr ⟨hss, rfl⟩
  have hlength := h.length
  have htake : us.take (before.length + reported.length) = before ++ reported := by
    have hle : before.length + reported.length ≤ before.length + max 1 p.fault.ahead := by omega
    have hfirst := congrArg (List.take (before.length + reported.length)) hus
    rw [List.take_take, List.take_take, Nat.min_eq_left hle, ← List.append_assoc,
      ← List.length_append, List.take_left] at hfirst
    rwa [← List.length_append]
  have hsplit : us = before ++ (reported ++ us.drop (before.length + reported.length)) := by
    rw [← List.append_assoc, ← htake, List.take_append_drop]
  rw [hsplit, h.depends] at hread
  · cases hread
  · rintro rfl
    have hnext := congrArg (·[before.length]?) hus
    rw [← hlength] at hnext
    simpa [List.getElem?_take, List.getElem?_append_right, List.head?_eq_getElem?] using hnext

/-- **Syntax errors are found at the earliest token.** An error of the parser is about the token
number `i`, or, if a parameter is repeated, about the kind at `i` and the name behind it. The tokens
before `i` begin a program, and no program begins with them and the tokens that the error is about. -/
theorem Program.error_earliest (source : String) (location : Option Location) {p : ParseError}
    (hending : (Tokens.ofText source location).ending = .complete eof)
    (h : Program.ofText source location = .error (.parse p)) :
    ∃ i, let ts := (Tokens.ofText source location).words
      ts.drop (i + p.fault.ahead) = p.rest ∧ i + p.fault.ahead + p.rest.length = ts.length ∧
      p.location = frontLocation eof (ts.drop i) ∧
      (∀ name, p.fault = .duplicateParameter name → ∃ kind l l',
        ts.drop i = ⟨.keyword (.kind kind), l⟩ :: ⟨.identifier name, l'⟩ :: p.rest) ∧
      (∃ w program, parseProgram eof (ts.take i ++ w) = .ok program) ∧
      ∀ us eof' program,
        us.take (i + max 1 p.fault.ahead) = ts.take (i + max 1 p.fault.ahead) →
        parseProgram eof' us ≠ .ok program := by
  have hearly : Early eof (readAll eof) (Viable IsStatements) (Tokens.ofText source location).words :=
    readAll_early _
  obtain ⟨before, reported, hts, hfails⟩ := hearly.error p (readAll_of_ofText hending h)
  refine ⟨before.length, ?_⟩
  simp only [hts, ← hfails.length]
  refine ⟨?_, ?_, ?_, ?_, ?_, ?_⟩
  · rw [← List.append_assoc, ← List.length_append, List.drop_left]
  · simp [Nat.add_assoc]
  · rw [List.drop_left]
    exact hfails.location
  · intro name hname
    obtain ⟨kind, l, l', rfl⟩ := hfails.repeated name hname
    exact ⟨kind, l, l', List.drop_left⟩
  · obtain ⟨w, ss, hss⟩ := hfails.good
    rw [List.take_left]
    exact ⟨w, ⟨_, ss⟩, parseProgram_eq_ok.mpr ⟨hss, rfl⟩⟩
  · intro us eof' program hus hread
    rw [hfails.length] at hus
    exact hfails.not_isStatements hus (parseProgram_eq_ok.mp hread).1

theorem Program.error_earliest_repeated :
    let source := "fun f(num x, str x) \x7b\x7d"
    let ts : List Token := [.keyword .funWord, .identifier "f", .symbol .lparen,
      .keyword (.kind .num), .identifier "x", .symbol .comma, .keyword (.kind .str), .identifier "x",
      .symbol .rparen, .symbol .lbrace, .symbol .rbrace].map (⟨·, none⟩)
    (Tokens.ofText source none).ending = .complete none ∧
      Program.ofText source none =
        .error (.parse ⟨.duplicateParameter "x", none, ts.drop 8⟩) ∧
      (∃ w program, parseProgram none (ts.take 6 ++ w) = .ok program) ∧
      ∀ us eof' program, us.take 8 = ts.take 8 → parseProgram eof' us ≠ .ok program := by
  intro source ts
  have hending : (Tokens.ofText source none).ending = .complete none := by decide +kernel
  have hwords : (Tokens.ofText source none).words = ts := by decide +kernel
  have hread : Program.ofText source none =
      .error (.parse ⟨.duplicateParameter "x", none, ts.drop 8⟩) := by
    rw [Program.ofText, Program.ofTokens, hending, hwords]
    simp [ts, parseProgram, parseAll, parseStatement, parseHeader, parseParameters, parseParameter,
      parseMoreParameters, expect, expectName, expectKind, bind, Except.bind, pure, Except.pure,
      frontLocation, Except.mapError]
  obtain ⟨i, -, hlength, -, -, hbefore, hnone⟩ := error_earliest source none hending hread
  rw [hwords] at hlength hbefore hnone
  obtain rfl : i = 6 := Nat.add_right_cancel (m := 5) hlength
  exact ⟨hending, hread, hbefore, hnone⟩

end KLang
