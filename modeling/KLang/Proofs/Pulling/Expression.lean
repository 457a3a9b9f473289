import KLang.Proofs.Parsing.Expression
import KLang.Proofs.Pulling.Basic

/-!
# Expressions from tokens on demand

Expressions are read one token at a time: each function knows the token in front of it, reads that
and asks for the next one. None of these functions is bounded by what remains of the text. What they
are given is how deeply calls and rounds may be nested from here on.

A depth of two for each token that remains is enough, and a few more: one for an operand, two for an
expression, three for its followers and for a list. So a function may call the one before it in this
order in front of the same tokens, and any of them behind a token, where two are to spare.

* `Pulling.parseAbove`, `Pulling.parseItems`: an expression above a bound, and items up to a `)`.
* `mirrors_parseAbove`, `mirrors_parseItems`: deep enough, they end, and do what the parser's results
  say.
-/

namespace KLang

namespace Pulling

mutual

/-- An operand and what follows it as long as that binds tighter than the bound. -/
def parseAbove : Nat → Mode → Precedence → Pulling Expr
  | 0, _, _ => tooDeep
  | depth + 1, mode, bound => do
    let operand ← parseOperand depth mode
    parseFollowers depth mode bound operand

/-- A literal, a name, an expression in parentheses, or an operand with an operator before it. -/
def parseOperand : Nat → Mode → Pulling Expr
  | 0, _ => tooDeep
  | depth + 1, mode => do
    let location ← here
    match ← word with
    | some (.identifier name) =>
      ask
      return .variable location ⟨none, name⟩
    | some (.number _ value) =>
      ask
      return .number location value
    | some (.string text) =>
      ask
      return .string location text
    | some (.symbol .lparen) =>
      ask
      let e ← parseAbove depth .plain .lowest
      let _ ← expect .rparen
      return e
    | some w =>
      match w.unary? with
      | some op =>
        ask
        let operand ← parseAbove depth mode .prefixed
        return .unary location op operand
      | none => fail .expectedExpression
    | none => fail .expectedExpression

/-- The followers of an operand as long as they bind tighter than the bound. -/
def parseFollowers : Nat → Mode → Precedence → Expr → Pulling Expr
  | 0, _, _, _ => tooDeep
  | depth + 1, mode, bound, left => do
    match (← word).bind Lexeme.follower? with
    | none => return left
    | some f =>
      if bound < f.precedence mode then
        let e ← round .followers (parseFollower depth mode f left)
        parseFollowers depth mode bound e
      else return left

/-- One follower of an operand. -/
def parseFollower : Nat → Mode → Follower → Expr → Pulling Expr
  | 0, _, _, _ => tooDeep
  | depth + 1, mode, f, left => do
    let location ← here
    match f with
    | .binary op =>
      ask
      let right ← parseAbove depth mode op.rightBound
      return .binary location op left right
    | .call =>
      match left with
      | .variable _ callee =>
        ask
        let arguments ← parseItems depth .plain .comma true
        return .call location callee arguments
      | _ => throw (.parse .callee location)
    | .member =>
      ask
      match left with
      | .variable _ ⟨none, module⟩ =>
        let name ← expectName
        return .variable location ⟨some module, name⟩
      | _ => throw (.parse .moduleName location)
    | .step op =>
      ask
      match left with
      | .variable _ ⟨none, name⟩ => return .step location op name
      | _ => throw (.parse .postfixTarget location)

/-- The expressions up to a `)`, with a separator in front of each but the first. -/
def parseItems : Nat → Mode → Symbol → Bool → Pulling (List Expr)
  | 0, _, _, _ => tooDeep
  | depth + 1, mode, separator, first => do
    if (← word) = some (.symbol .rparen) then
      ask
      return []
    else
      let e ← round .items (separated separator first (parseAbove depth mode .lowest))
      let es ← parseItems depth mode separator false
      return e :: es

end

end Pulling

/-! ## What they do -/

variable {whole : Tokens}

-- by induction on the depth, of which every call takes one
mutual

theorem mirrors_parseAbove (mode : Mode) (bound : Precedence) (ts : List Token) :
    ∀ {depth}, 2 * ts.length + 2 ≤ depth → Mirrors whole ts (Pulling.parseAbove depth mode bound)
      (outcome (parseAbove whole.last mode bound ts))
  | depth + 1, hdepth => by
    rw [Pulling.parseAbove, outcome_parseAbove]
    refine .bind (mirrors_parseOperand mode ts (by omega)) fun operand rest h => ?_
    have hlt := length_lt_of_outcome h
    exact mirrors_parseFollowers mode bound operand rest (by omega)

theorem mirrors_parseOperand (mode : Mode) (ts : List Token) :
    ∀ {depth}, 2 * ts.length + 1 ≤ depth → Mirrors whole ts (Pulling.parseOperand depth mode)
      (outcome (parseOperand whole.last mode ts))
  | depth + 1, hdepth => by
    rw [Pulling.parseOperand]
    refine .here (.word ?_)
    match ts with
    | [] =>
      rw [parseOperand]
      exact .fail _
    | ⟨.identifier name, l⟩ :: ts | ⟨.number _ _, l⟩ :: ts | ⟨.string _, l⟩ :: ts =>
      rw [parseOperand]
      exact .next (.pure _)
    | ⟨.keyword k, l⟩ :: ts =>
      rw [parseOperand]
      · exact .fail _
      all_goals simp
    | ⟨.symbol s, l⟩ :: ts =>
      have hnext : 2 * ts.length + 2 ≤ depth := by
        rw [List.length_cons] at hdepth
        omega
      by_cases hs : s = .lparen
      · subst hs
        rw [outcome_parseOperand_lparen]
        exact .next (.closed _ _ (mirrors_parseAbove .plain .lowest ts hnext))
      · cases hw : (Lexeme.symbol s).unary? with
        | some op =>
          rw [outcome_parseOperand_unary _ _ _ hw]
          have hword := Lexeme.unary?_eq_some.mp hw
          cases op <;> cases hword
          all_goals
            exact .next (.bind (mirrors_parseAbove mode .prefixed ts hnext) fun _ _ _ => .pure _)
        | none =>
          rw [parseOperand]
          · rw [hw]
            cases s <;> first | exact absurd rfl hs | exact .fail _ | cases hw
          all_goals simp [hs]

theorem mirrors_parseFollowers (mode : Mode) (bound : Precedence) (left : Expr) (ts : List Token) :
    ∀ {depth}, 2 * ts.length + 3 ≤ depth →
      Mirrors whole ts (Pulling.parseFollowers depth mode bound left)
        (outcome (parseFollowers whole.last mode bound left ts))
  | depth + 1, hdepth => by
    rw [Pulling.parseFollowers]
    refine .word ?_
    match ts with
    | [] =>
      rw [parseFollowers]
      exact .pure left
    | t :: ts =>
      rw [List.length_cons] at hdepth
      rw [outcome_parseFollowers_cons]
      change Mirrors whole _ (match t.lexeme.follower? with | none => _ | some f => _) _
      cases t.lexeme.follower? with
      | none => exact .pure left
      | some f =>
        dsimp only
        split
        · refine .bind (.round _ (mirrors_parseFollower mode f left t ts (by omega)) fun _ _ =>
            length_lt_of_outcome) fun e rest h => ?_
          have hlt := length_lt_of_outcome h
          exact mirrors_parseFollowers mode bound e rest (by omega)
        · exact .pure left

theorem mirrors_parseFollower (mode : Mode) (f : Follower) (left : Expr) (t : Token)
    (ts : List Token) :
    ∀ {depth}, 2 * ts.length + 4 ≤ depth →
      Mirrors whole (t :: ts) (Pulling.parseFollower depth mode f left)
        (outcome (parseFollower whole.last mode f left t ts))
  | depth + 1, hdepth => by
    rw [Pulling.parseFollower]
    refine .here ?_
    match f with
    | .binary op =>
      rw [outcome_parseFollower_binary]
      refine .next (.bind (mirrors_parseAbove mode op.rightBound ts ?_) fun right _ _ => .pure _)
      omega
    | .call =>
      by_cases hleft : ∃ l callee, left = .variable l callee
      · obtain ⟨l, callee, rfl⟩ := hleft
        rw [outcome_parseFollower_call]
        refine .next (.bind (mirrors_parseItems .plain .comma ts ?_) fun _ _ _ => .pure _)
        omega
      · rw [parseFollower]
        · cases left <;> first | exact absurd ⟨_, _, rfl⟩ hleft | exact .throw _ _
        all_goals exact fun l callee h => hleft ⟨l, callee, h⟩
    | .member =>
      by_cases hleft : ∃ l name, left = .variable l ⟨none, name⟩
      · obtain ⟨l, name, rfl⟩ := hleft
        rw [outcome_parseFollower_member]
        exact .next (.bind .expectName fun _ _ _ => .pure _)
      · rw [parseFollower]
        · refine .next ?_
          split
          · exact absurd ⟨_, _, rfl⟩ hleft
          · exact .throw _ _
        all_goals exact fun l name h => hleft ⟨l, name, h⟩
    | .step op =>
      by_cases hleft : ∃ l name, left = .variable l ⟨none, name⟩
      · obtain ⟨l, name, rfl⟩ := hleft
        rw [outcome_parseFollower_step]
        exact .next (.pure _)
      · rw [parseFollower]
        · refine .next ?_
          split
          · exact absurd ⟨_, _, rfl⟩ hleft
          · exact .throw _ _
        all_goals exact fun l name h => hleft ⟨l, name, h⟩

theorem mirrors_parseItems (mode : Mode) (separator : Symbol) (ts : List Token) :
    ∀ {depth}, 2 * ts.length + 3 ≤ depth →
      Mirrors whole ts (Pulling.parseItems depth mode separator true)
        (outcome (parseItems whole.last mode separator ts))
  | depth + 1, hdepth => by
    rw [Pulling.parseItems]
    refine .word ?_
    by_cases hend : front ts = some (.symbol .rparen)
    · obtain ⟨l, rest, rfl⟩ := front_eq_some.mp hend
      rw [if_pos hend, outcome_parseItems_rparen]
      exact .next (.pure [])
    · rw [if_neg hend, outcome_parseItems _ hend]
      refine .bind (.round _ (mirrors_parseAbove mode .lowest ts (by omega)) fun _ _ =>
        length_lt_of_outcome) fun e rest h => ?_
      have hlt := length_lt_of_outcome h
      exact .bind (mirrors_parseMoreItems mode separator rest (by omega)) fun _ _ _ => .pure _

theorem mirrors_parseMoreItems (mode : Mode) (separator : Symbol) (ts : List Token) :
    ∀ {depth}, 2 * ts.length + 3 ≤ depth →
      Mirrors whole ts (Pulling.parseItems depth mode separator false)
        (outcome (parseMoreItems whole.last mode separator ts))
  | depth + 1, hdepth => by
    rw [Pulling.parseItems]
    refine .word ?_
    by_cases hend : front ts = some (.symbol .rparen)
    · obtain ⟨l, rest, rfl⟩ := front_eq_some.mp hend
      rw [if_pos hend, outcome_parseMoreItems_rparen]
      exact .next (.pure [])
    · rw [if_neg hend, outcome_parseMoreItems _ hend]
      refine .separated (fun rest hlt => ?_) fun e rest hlt => ?_
      · exact mirrors_parseAbove mode .lowest rest (by omega)
      · exact .bind (mirrors_parseMoreItems mode separator rest (by omega)) fun _ _ _ => .pure _

end

end KLang
