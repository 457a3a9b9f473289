import KLang.Program.Statement
import Mathlib.Tactic.ByContra

/-!
# What a parser reads

A parser's result carries a proof that it left fewer tokens than it was given. `outcome` forgets the
proof: the tree and the tokens behind it, or the error. Every parser has one equation on outcomes
here, and what is proved about parsers is proved from these equations.
-/

namespace KLang

/-- The tree that was read and the tokens behind it, or the error. -/
def outcome {α : Type} {n : Nat} (r : ParseResult α n) : Except ParseError (α × List Token) :=
  r.map fun p => (p.value, p.rest)

theorem ok_bind {ε α β : Type} (a : α) (f : α → Except ε β) :
    ((.ok a : Except ε α) >>= f) = f a := rfl

theorem bind_eq_ok {ε α β σ : Type} {r : Except ε (α × σ)} {f : α × σ → Except ε β} {b : β} :
    (r >>= f) = .ok b ↔ ∃ a s, r = .ok (a, s) ∧ f (a, s) = .ok b := by
  cases r with
  | error e => simp [bind, Except.bind]
  | ok p =>
    obtain ⟨a, s⟩ := p
    simp only [ok_bind, Except.ok.injEq, Prod.mk.injEq]
    exact ⟨fun h => ⟨a, s, ⟨rfl, rfl⟩, h⟩, fun ⟨_, _, ⟨rfl, rfl⟩, h⟩ => h⟩

section outcome

variable {α β : Type} {m n : Nat}

@[simp]
theorem outcome_ok (p : Parsed α n) : outcome (.ok p) = .ok (p.value, p.rest) := rfl

@[simp]
theorem outcome_error (e : ParseError) : outcome (.error e : ParseResult α n) = .error e := rfl

theorem length_lt_of_outcome {r : ParseResult α n} {a : α} {rest : List Token}
    (h : outcome r = .ok (a, rest)) : rest.length < n := by
  cases r with
  | error e => simp at h
  | ok p =>
    obtain ⟨-, rfl⟩ := Prod.mk.inj (Except.ok.inj h)
    exact p.length_rest

theorem outcome_bind {r : ParseResult α m} {f : Parsed α m → ParseResult β n}
    {g : α × List Token → Except ParseError (β × List Token)}
    (h : ∀ p : Parsed α m, outcome (f p) = g (p.value, p.rest)) :
    outcome (r >>= f) = outcome r >>= g := by
  cases r with
  | error e => rfl
  | ok p => exact h p

@[simp]
theorem outcome_bind_weaken (r : ParseResult α m) (h : m ≤ n) :
    outcome (r >>= fun p => pure (p.weaken h)) = outcome r := by
  cases r <;> rfl

end outcome

variable (eof : Option Location)

/-! ## Single tokens -/

theorem outcome_expect_eq_ok {s : Symbol} {ts rest : List Token} {l : Option Location} :
    outcome (expect eof s ts) = .ok (l, rest) ↔ ts = ⟨.symbol s, l⟩ :: rest := by
  unfold expect
  split
  · split
    · simp_all
    · simp_all [failFront]
  · simp_all [failFront]

theorem outcome_expectName_eq_ok {name : String} {ts rest : List Token} :
    outcome (expectName eof ts) = .ok (name, rest) ↔
      ∃ l, ts = ⟨.identifier name, l⟩ :: rest := by
  unfold expectName
  split
  · simp_all
  · simp_all [failFront]

theorem outcome_expectKind_eq_ok {kind : Kind} {ts rest : List Token} :
    outcome (expectKind eof ts) = .ok (kind, rest) ↔
      ∃ l, ts = ⟨.keyword (.kind kind), l⟩ :: rest := by
  unfold expectKind
  split
  · simp_all
  · simp_all [failFront]

/-! ## Expressions -/

theorem outcome_parseAbove (mode : Mode) (bound : Precedence) (ts : List Token) :
    outcome (parseAbove eof mode bound ts) = (do
      let (operand, rest) ← outcome (parseOperand eof mode ts)
      outcome (parseFollowers eof mode bound operand rest)) := by
  rw [parseAbove]
  exact outcome_bind fun p => outcome_bind_weaken _ _

theorem outcome_parseOperand_lparen (mode : Mode) (l : Option Location) (ts : List Token) :
    outcome (parseOperand eof mode (⟨.symbol .lparen, l⟩ :: ts)) = (do
      let (e, rest) ← outcome (parseAbove eof .plain .lowest ts)
      let (_, rest) ← outcome (expect eof .rparen rest)
      return (e, rest)) := by
  rw [parseOperand]
  exact outcome_bind fun p => outcome_bind fun q => rfl

theorem outcome_parseOperand_unary (mode : Mode) {w : Lexeme} (l : Option Location)
    {op : UnaryOperator} (h : w.unary? = some op) (ts : List Token) :
    outcome (parseOperand eof mode (⟨w, l⟩ :: ts)) = (do
      let (operand, rest) ← outcome (parseAbove eof mode .prefixed ts)
      return (.unary l op operand, rest)) := by
  rw [parseOperand]
  · simp only [h]
    exact outcome_bind fun p => rfl
  all_goals
    intros
    simp_all [Lexeme.unary?]

theorem outcome_parseFollowers_cons (mode : Mode) (bound : Precedence) (left : Expr) (t : Token)
    (ts : List Token) :
    outcome (parseFollowers eof mode bound left (t :: ts)) =
      match t.lexeme.follower? with
      | none => .ok (left, t :: ts)
      | some f =>
        if bound < f.precedence mode then do
          let (e, rest) ← outcome (parseFollower eof mode f left t ts)
          outcome (parseFollowers eof mode bound e rest)
        else .ok (left, t :: ts) := by
  rw [parseFollowers]
  cases h : t.lexeme.follower? with
  | none => rfl
  | some f =>
    dsimp only
    split
    · exact outcome_bind fun p => outcome_bind_weaken _ _
    · rfl

theorem outcome_parseFollower_binary (mode : Mode) (op : BinaryOperator) (left : Expr)
    (word : Token) (ts : List Token) :
    outcome (parseFollower eof mode (.binary op) left word ts) = (do
      let (right, rest) ← outcome (parseAbove eof mode op.rightBound ts)
      return (.binary word.location op left right, rest)) := by
  rw [parseFollower]
  exact outcome_bind fun p => rfl

theorem outcome_parseFollower_call (mode : Mode) (l : Option Location) (callee : Name)
    (word : Token) (ts : List Token) :
    outcome (parseFollower eof mode .call (.variable l callee) word ts) = (do
      let (arguments, rest) ← outcome (parseItems eof .plain .comma ts)
      return (.call word.location callee arguments, rest)) := by
  rw [parseFollower]
  exact outcome_bind fun p => rfl

theorem outcome_parseFollower_member (mode : Mode) (l : Option Location) (module : String)
    (word : Token) (ts : List Token) :
    outcome (parseFollower eof mode .member (.variable l ⟨none, module⟩) word ts) = (do
      let (name, rest) ← outcome (expectName eof ts)
      return (.variable word.location ⟨some module, name⟩, rest)) := by
  rw [parseFollower]
  exact outcome_bind fun p => rfl

theorem outcome_parseFollower_step (mode : Mode) (op : PostfixOperator) (l : Option Location)
    (name : String) (word : Token) (ts : List Token) :
    outcome (parseFollower eof mode (.step op) (.variable l ⟨none, name⟩) word ts) =
      .ok (.step word.location op name, ts) := by
  rw [parseFollower]
  rfl

theorem variable_of_outcome_call {mode : Mode} {left : Expr} {word : Token} {ts : List Token}
    {r : Expr × List Token} (h : outcome (parseFollower eof mode .call left word ts) = .ok r) :
    ∃ l callee, left = .variable l callee := by
  by_contra hne
  rw [parseFollower] at h
  · simp at h
  · rintro l callee rfl
    exact hne ⟨l, callee, rfl⟩

theorem variable_of_outcome_member {mode : Mode} {left : Expr} {word : Token} {ts : List Token}
    {r : Expr × List Token} (h : outcome (parseFollower eof mode .member left word ts) = .ok r) :
    ∃ l module, left = .variable l ⟨none, module⟩ := by
  by_contra hne
  rw [parseFollower] at h
  · simp at h
  · rintro l name rfl
    exact hne ⟨l, name, rfl⟩

theorem variable_of_outcome_step {mode : Mode} {op : PostfixOperator} {left : Expr} {word : Token}
    {ts : List Token} {r : Expr × List Token}
    (h : outcome (parseFollower eof mode (.step op) left word ts) = .ok r) :
    ∃ l name, left = .variable l ⟨none, name⟩ := by
  by_contra hne
  rw [parseFollower] at h
  · simp at h
  · rintro l name rfl
    exact hne ⟨l, name, rfl⟩

theorem outcome_parseItems_rparen (mode : Mode) (separator : Symbol) (l : Option Location)
    (ts : List Token) :
    outcome (parseItems eof mode separator (⟨.symbol .rparen, l⟩ :: ts)) = .ok ([], ts) := by
  rw [parseItems]
  rfl

theorem outcome_parseItems {mode : Mode} {separator : Symbol} {ts : List Token}
    (h : front ts ≠ some (.symbol .rparen)) :
    outcome (parseItems eof mode separator ts) = (do
      let (e, rest) ← outcome (parseAbove eof mode .lowest ts)
      let (es, rest) ← outcome (parseMoreItems eof mode separator rest)
      return (e :: es, rest)) := by
  rw [parseItems]
  · exact outcome_bind fun p => outcome_bind fun q => rfl
  · rintro l rest rfl
    exact h rfl

theorem outcome_parseMoreItems_rparen (mode : Mode) (separator : Symbol) (l : Option Location)
    (ts : List Token) :
    outcome (parseMoreItems eof mode separator (⟨.symbol .rparen, l⟩ :: ts)) = .ok ([], ts) := by
  rw [parseMoreItems]
  rfl

theorem outcome_parseMoreItems {mode : Mode} {separator : Symbol} {ts : List Token}
    (h : front ts ≠ some (.symbol .rparen)) :
    outcome (parseMoreItems eof mode separator ts) = (do
      let (_, rest) ← outcome (expect eof separator ts)
      let (e, rest) ← outcome (parseAbove eof mode .lowest rest)
      let (es, rest) ← outcome (parseMoreItems eof mode separator rest)
      return (e :: es, rest)) := by
  rw [parseMoreItems]
  · exact outcome_bind fun p => outcome_bind fun q => outcome_bind fun r => rfl
  · rintro l rest rfl
    exact h rfl

end KLang
