import KLang.Proofs.Switch.Basic

/-!
# Expressions read with a switch

The readings of expressions look at the switch where a precedence is looked up, and nowhere else.
Parentheses and arguments set it to plain mode and put it back. They read what the parser reads that
is told its mode.

* `Reading.parseAbove`, `Reading.parseList`: an expression above a bound, and items up to a `)`.
* `agrees_parseAbove`, `agrees_parseList`: at the right place, they agree with the parser.
-/

namespace KLang

variable (eof : Option Location)

/-- Reads the `)` behind what was read. -/
def closing {α : Type} {n : Nat} (p : Parsed α (n + 1)) : ParseResult α n := do
  let ⟨_, rest, h⟩ ← expect eof .rparen p.rest
  return ⟨p.value, rest, by have := p.length_rest; omega⟩

namespace Reading

mutual

/-- An operand and what follows it as long as that binds tighter than the bound. -/
def parseAbove (bound : Precedence) (ts : List Token) : Reading (Parsed Expr ts.length) := do
  visit .expression ts
  let ⟨operand, rest, h⟩ ← parseOperand ts
  let e ← parseFollowers bound operand rest
  return e.weaken h
termination_by (ts.length, 1)

/-- A literal, a name, an expression in parentheses, or an operand with an operator before it. -/
def parseOperand (ts : List Token) : Reading (Parsed Expr ts.length) :=
  match ts with
  | ⟨.identifier name, location⟩ :: rest =>
    return ⟨.variable location ⟨none, name⟩, rest, length_lt_succ rest⟩
  | ⟨.number _ value, location⟩ :: rest =>
    return ⟨.number location value, rest, length_lt_succ rest⟩
  | ⟨.string text, location⟩ :: rest => return ⟨.string location text, rest, length_lt_succ rest⟩
  | ⟨.symbol .lparen, _⟩ :: rest => do
    let ⟨e, rest, h⟩ ← switched .plain (parseAbove .lowest rest)
    let ⟨_, rest, h'⟩ ← ofExcept (expect eof .rparen rest)
    return ⟨e, rest, by simp only [List.length_cons]; omega⟩
  | ⟨l, location⟩ :: rest =>
    match l.unary? with
    | some op => do
      let ⟨operand, rest, h⟩ ← parseAbove .prefixed rest
      return ⟨.unary location op operand, rest, Nat.lt_succ_of_lt h⟩
    | none => ofExcept (failFront eof .expectedExpression (⟨l, location⟩ :: rest))
  | [] => ofExcept (failFront eof .expectedExpression [])
termination_by (ts.length, 0)

/-- The followers of an operand as long as they bind tighter than the bound. -/
def parseFollowers (bound : Precedence) (left : Expr) (ts : List Token) :
    Reading (Parsed Expr (ts.length + 1)) :=
  match ts with
  | [] => do
    let _ ← precedence []
    return ⟨left, [], Nat.lt_succ_self _⟩
  | ⟨l, location⟩ :: rest => do
    let tightness ← precedence (⟨l, location⟩ :: rest)
    match l.follower? with
    | none => return ⟨left, ⟨l, location⟩ :: rest, Nat.lt_succ_self _⟩
    | some f =>
      if bound < tightness then do
        let ⟨e, rest, h⟩ ← parseFollower f left ⟨l, location⟩ rest
        let e ← parseFollowers bound e rest
        return e.weaken (by simp only [List.length_cons]; omega)
      else return ⟨left, ⟨l, location⟩ :: rest, Nat.lt_succ_self _⟩
termination_by (ts.length, 0)

/-- One follower of an operand, behind the word that it begins with. The bound for a right operand
is looked up once more. -/
def parseFollower (f : Follower) (left : Expr) (word : Token) (ts : List Token) :
    Reading (Parsed Expr (ts.length + 1)) :=
  match f with
  | .binary op => do
    let tightness ← precedence (word :: ts)
    let bound := if op = .pow then .product else tightness
    let ⟨right, rest, h⟩ ← parseAbove bound ts
    return ⟨.binary word.location op left right, rest, Nat.lt_succ_of_lt h⟩
  | .call =>
    match left with
    | .variable _ callee => switched .plain do
      let ⟨arguments, rest, h⟩ ← ofExcept (closing eof (← parseList .comma ts))
      return ⟨.call word.location callee arguments, rest, Nat.lt_succ_of_lt h⟩
    | _ => throw ⟨.callee, word.location, word :: ts⟩
  | .member =>
    match left with
    | .variable _ ⟨none, module⟩ => do
      let ⟨name, rest, h⟩ ← ofExcept (expectName eof ts)
      return ⟨.variable word.location ⟨some module, name⟩, rest, Nat.lt_succ_of_lt h⟩
    | _ => throw ⟨.moduleName, word.location, ts⟩
  | .step op =>
    match left with
    | .variable _ ⟨none, name⟩ =>
      return ⟨.step word.location op name, ts, Nat.lt_succ_self _⟩
    | _ => throw ⟨.postfixTarget, word.location, ts⟩
termination_by (ts.length, 3)

/-- The expressions in front of a `)`, with a separator between each and the next. -/
def parseList (separator : Symbol) (ts : List Token) :
    Reading (Parsed (List Expr) (ts.length + 1)) :=
  if front ts = some (.symbol .rparen) then return ⟨[], ts, Nat.lt_succ_self _⟩
  else do
    let ⟨e, rest, h⟩ ← parseAbove .lowest ts
    let ⟨es, rest, h'⟩ ← parseMoreList separator rest
    return ⟨e :: es, rest, by omega⟩
termination_by (ts.length, 2)

/-- The expressions in front of a `)`, each behind a separator. -/
def parseMoreList (separator : Symbol) (ts : List Token) :
    Reading (Parsed (List Expr) (ts.length + 1)) :=
  if front ts = some (.symbol .rparen) then return ⟨[], ts, Nat.lt_succ_self _⟩
  else do
    let ⟨_, rest, h⟩ ← ofExcept (expect eof separator ts)
    let ⟨e, rest, h'⟩ ← parseAbove .lowest rest
    let ⟨es, rest, h''⟩ ← parseMoreList separator rest
    return ⟨e :: es, rest, by omega⟩
termination_by (ts.length, 0)

end

end Reading

/-! ## What was read -/

variable {eof}

section passes

variable {mode : Mode} {bound : Precedence} {ts rest : List Token}

theorem passes_of_parseAbove {e : Expr}
    (h : outcome (parseAbove eof mode bound ts) = .ok (e, rest)) : Passes ts rest := by
  obtain ⟨u, hu, he, -⟩ := parseAbove_sound h
  exact ⟨u, hu, he.closed⟩

theorem passes_of_parseOperand {e : Expr}
    (h : outcome (parseOperand eof mode ts) = .ok (e, rest)) : Passes ts rest := by
  obtain ⟨u, hu, he, -⟩ := parseOperand_sound h
  exact ⟨u, hu, he.closed⟩

theorem passes_of_expect {s : Symbol} {l : Option Location}
    (hs : (Lexeme.symbol s).nesting = 0) (h : outcome (expect eof s ts) = .ok (l, rest)) :
    Passes ts rest := by
  rw [(outcome_expect_eq_ok eof).mp h]
  exact .word l hs nofun rest

theorem passes_of_parseFollower {f : Follower} {left e : Expr} {word : Token}
    (hword : word.lexeme = f.word)
    (h : outcome (parseFollower eof mode f left word ts) = .ok (e, rest)) :
    Passes (word :: ts) rest := by
  obtain ⟨w, l⟩ := word
  subst hword
  cases f with
  | binary op =>
    rw [outcome_parseFollower_binary] at h
    obtain ⟨right, rest, hread, h⟩ := bind_eq_ok.mp h
    cases h
    exact .trans (.word l op.nesting_word op.word_ne_print ts) (passes_of_parseAbove hread)
  | call =>
    obtain ⟨l', callee, rfl⟩ := variable_of_outcome_call eof h
    rw [outcome_parseFollower_call] at h
    obtain ⟨arguments, rest, hread, h⟩ := bind_eq_ok.mp h
    cases h
    obtain ⟨v, r, rfl, hv⟩ := parseItems_sound hread
    have hv : Closed v := hv.closed rfl fun _ _ => Derives.closed
    exact ⟨_, by simp [Follower.word], .enclosed hv.toBalanced l r⟩
  | member =>
    obtain ⟨l', module, rfl⟩ := variable_of_outcome_member eof h
    rw [outcome_parseFollower_member] at h
    obtain ⟨name, rest, hread, h⟩ := bind_eq_ok.mp h
    cases h
    obtain ⟨r, rfl⟩ := (outcome_expectName_eq_ok eof).mp hread
    exact ⟨[_, _], rfl, .cons l rfl (.word r rfl (by simp)) (by simp [Follower.word])⟩
  | step op =>
    obtain ⟨l', name, rfl⟩ := variable_of_outcome_step eof h
    rw [outcome_parseFollower_step] at h
    cases h
    cases op <;> exact ⟨[_], rfl, .word l rfl (by simp [Follower.word, PostfixOperator.word])⟩

end passes

/-! ## Lists up to a `)` -/

/-- The reading stops in front of the `)` that the parser stops behind. -/
def AgreesInFront (eof : Option Location) {α : Type} {n : Nat} (good : Visit → Prop) (mode : Mode)
    (x : Reading (Parsed α (n + 1))) (r : ParseResult α n) : Prop :=
  ∃ r', Agrees good mode x r' ∧ r' >>= closing eof = r

namespace AgreesInFront

variable {α β : Type} {n m : Nat} {good : Visit → Prop} {mode : Mode}

theorem bind {x : Reading β} {r : Except ParseError β} {f : β → Reading (Parsed α (n + 1))}
    {g : β → ParseResult α n} (hx : Agrees good mode x r)
    (hf : ∀ b, r = .ok b → AgreesInFront eof good mode (f b) (g b)) :
    AgreesInFront eof good mode (x >>= f) (r >>= g) := by
  cases r with
  | error e => exact ⟨.error e, .bind (g := fun _ => .error e) hx nofun, rfl⟩
  | ok b =>
    obtain ⟨r', hr', hclosing⟩ := hf b rfl
    exact ⟨r', .after hx hr', hclosing⟩

theorem cons {x : Reading (Parsed (List Expr) (m + 1))} {r : ParseResult (List Expr) m}
    (h : AgreesInFront eof good mode x r) (e : Expr) (hle : m ≤ n) :
    AgreesInFront eof good mode
      (x >>= fun p => Pure.pure (⟨e :: p.value, p.rest, by have := p.length_rest; omega⟩ :
        Parsed (List Expr) (n + 1)))
      (r >>= fun p => Pure.pure ⟨e :: p.value, p.rest, by have := p.length_rest; omega⟩) := by
  obtain ⟨r', hr', rfl⟩ := h
  refine ⟨_, .bind hr' fun p _ => .pure _, ?_⟩
  cases r' with
  | error => rfl
  | ok p =>
    simp only [closing, ok_bind, bind_assoc]
    cases expect eof .rparen p.rest <;> rfl

end AgreesInFront

theorem Before.bindInFront {whole ts : List Token} {mode : Mode} {α β : Type} {m n : Nat}
    (h : Before whole ts mode) {x : Reading (Parsed β m)} {r : ParseResult β m}
    {f : Parsed β m → Reading (Parsed α (n + 1))} {g : Parsed β m → ParseResult α n}
    (hx : Agrees (Visit.Right whole) mode x r)
    (hpasses : ∀ {b rest}, outcome r = .ok (b, rest) → Passes ts rest)
    (hf : ∀ p, Before whole p.rest mode →
      AgreesInFront eof (Visit.Right whole) mode (f p) (g p)) :
    AgreesInFront eof (Visit.Right whole) mode (x >>= f) (r >>= g) :=
  .bind hx fun p hp => hf p (h.behind (hpasses (congrArg outcome hp)))

/-! ## Agreement -/

section agreement

variable {whole : List Token}

mutual

theorem agrees_parseAbove {mode : Mode} {ts : List Token} (h : Before whole ts mode)
    (bound : Precedence) :
    Agrees (Visit.Right whole) mode (Reading.parseAbove eof bound ts)
      (parseAbove eof mode bound ts) := by
  rw [Reading.parseAbove, parseAbove]
  refine .after (.visit (h.right (.inl rfl))) ?_
  refine h.bind (agrees_parseOperand h) passes_of_parseOperand fun ⟨operand, rest, hlt⟩ h => ?_
  exact .bind (agrees_parseFollowers h bound operand) fun _ _ => .pure _
termination_by (ts.length, 1)

theorem agrees_parseOperand {mode : Mode} {ts : List Token} (h : Before whole ts mode) :
    Agrees (Visit.Right whole) mode (Reading.parseOperand eof ts) (parseOperand eof mode ts) := by
  match ts with
  | [] =>
    rw [Reading.parseOperand, parseOperand]
    exact .ofExcept _
  | ⟨.identifier name, l⟩ :: ts | ⟨.number _ _, l⟩ :: ts | ⟨.string _, l⟩ :: ts =>
    rw [Reading.parseOperand, parseOperand]
    exact .pure _
  | ⟨.keyword k, l⟩ :: ts =>
    rw [Reading.parseOperand, parseOperand]
    · cases hw : (Lexeme.keyword k).unary? with
      | none => exact .ofExcept _
      | some op => cases hw
    all_goals simp
  | ⟨.symbol s, l⟩ :: ts =>
    by_cases hs : s = .lparen
    · subst hs
      rw [Reading.parseOperand, parseOperand]
      refine .bind (.switched (agrees_parseAbove h.lparen .lowest)) fun ⟨e, rest, _⟩ _ => ?_
      exact .bind (.ofExcept _) fun _ _ => .pure _
    · rw [Reading.parseOperand, parseOperand]
      · cases hw : (Lexeme.symbol s).unary? with
        | none => exact .ofExcept _
        | some op =>
          have hnesting : (Lexeme.symbol s).nesting = 0 := by
            rw [Lexeme.unary?_eq_some.mp hw]
            cases op <;> rfl
          exact .bind (agrees_parseAbove (h.word hnesting nofun) .prefixed) fun _ _ => .pure _
      all_goals simp [hs]
termination_by (ts.length, 0)

theorem agrees_parseFollowers {mode : Mode} {ts : List Token} (h : Before whole ts mode)
    (bound : Precedence) (left : Expr) :
    Agrees (Visit.Right whole) mode (Reading.parseFollowers eof bound left ts)
      (parseFollowers eof mode bound left ts) := by
  have hlookup := Agrees.precedence (h.right (.inr (.inl rfl)))
  match ts with
  | [] =>
    rw [Reading.parseFollowers, parseFollowers]
    exact .after hlookup (.pure _)
  | ⟨w, l⟩ :: ts =>
    rw [Reading.parseFollowers, parseFollowers]
    refine .after hlookup ?_
    cases hf : w.follower? with
    | none => exact .pure _
    | some f =>
      have hfront : frontPrecedence mode (⟨w, l⟩ :: ts) = f.precedence mode := by
        simp [frontPrecedence, Lexeme.precedence, hf]
      rw [hfront]
      dsimp only
      by_cases hlt : bound < f.precedence mode
      · rw [if_pos hlt, if_pos hlt]
        have hword := Lexeme.follower?_eq_some.mp hf
        have hbinds := Precedence.lt_of_le_of_lt (Precedence.lowest_le _) hlt
        refine h.bind (agrees_parseFollower h hword hbinds left) (passes_of_parseFollower hword)
          fun ⟨e, rest, _⟩ h => ?_
        exact .bind (agrees_parseFollowers h bound e) fun _ _ => .pure _
      · rw [if_neg hlt, if_neg hlt]
        exact .pure _
termination_by (ts.length, 0)

theorem agrees_parseFollower {mode : Mode} {ts : List Token} {f : Follower} {word : Token}
    (h : Before whole (word :: ts) mode) (hword : word.lexeme = f.word)
    (hbinds : .lowest < f.precedence mode) (left : Expr) :
    Agrees (Visit.Right whole) mode (Reading.parseFollower eof f left word ts)
      (parseFollower eof mode f left word ts) := by
  obtain ⟨w, l⟩ := word
  subst hword
  match f with
  | .binary op =>
    -- in plain mode or not, the word binds as tightly as its operator, since it binds at all
    have hbound : (if op = .pow then .product else
        frontPrecedence mode (⟨(Follower.binary op).word, l⟩ :: ts)) = op.rightBound := by
      by_cases hop : op = .pow
      · subst hop
        rfl
      · rw [if_neg hop, BinaryOperator.rightBound_eq hop, frontPrecedence,
          Follower.precedence_word, Follower.precedence_binary (Mode.admits_of_lt hbinds)]
    rw [Reading.parseFollower, parseFollower]
    refine .after (.precedence (h.right (.inr (.inl rfl)))) ?_
    dsimp only
    rw [hbound]
    have h := h.word op.nesting_word op.word_ne_print
    exact .bind (agrees_parseAbove h op.rightBound) fun _ _ => .pure _
  | .call =>
    by_cases hleft : ∃ l callee, left = .variable l callee
    · obtain ⟨l', callee, rfl⟩ := hleft
      rw [Reading.parseFollower, parseFollower]
      refine .switched ?_
      have hlist : AgreesInFront eof (Visit.Right whole) .plain (Reading.parseList eof .comma ts)
        (parseItems eof .plain .comma ts) := agrees_parseList h.lparen rfl
      obtain ⟨r, hr, hclosing⟩ := hlist
      rw [← hclosing, bind_assoc]
      refine .bind hr fun p _ => ?_
      exact .bind (.ofExcept _) fun _ _ => .pure _
    · rw [Reading.parseFollower, parseFollower]
      · exact .ofExcept (.error _)
      all_goals exact fun l callee h => hleft ⟨l, callee, h⟩
  | .member =>
    by_cases hleft : ∃ l name, left = .variable l ⟨none, name⟩
    · obtain ⟨l', name, rfl⟩ := hleft
      rw [Reading.parseFollower, parseFollower]
      exact .bind (.ofExcept _) fun _ _ => .pure _
    · rw [Reading.parseFollower, parseFollower]
      · exact .ofExcept (.error _)
      all_goals exact fun l name h => hleft ⟨l, name, h⟩
  | .step op =>
    by_cases hleft : ∃ l name, left = .variable l ⟨none, name⟩
    · obtain ⟨l', name, rfl⟩ := hleft
      rw [Reading.parseFollower, parseFollower]
      exact .pure _
    · rw [Reading.parseFollower, parseFollower]
      · exact .ofExcept (.error _)
      all_goals exact fun l name h => hleft ⟨l, name, h⟩
termination_by (ts.length, 3)

theorem agrees_parseList {mode : Mode} {ts : List Token} (h : Before whole ts mode)
    {separator : Symbol} (hseparator : (Lexeme.symbol separator).nesting = 0) :
    AgreesInFront eof (Visit.Right whole) mode (Reading.parseList eof separator ts)
      (parseItems eof mode separator ts) := by
  by_cases hend : front ts = some (.symbol .rparen)
  · obtain ⟨l, rest, rfl⟩ := front_eq_some.mp hend
    rw [Reading.parseList, if_pos hend, parseItems]
    exact ⟨_, .pure _, rfl⟩
  · rw [Reading.parseList, if_neg hend, parseItems]
    · refine h.bindInFront (agrees_parseAbove h .lowest) passes_of_parseAbove
        fun ⟨e, rest, hlt⟩ h => ?_
      exact .cons (agrees_parseMoreList h hseparator) e (Nat.le_of_lt hlt)
    · rintro l rest rfl
      exact hend rfl
termination_by (ts.length, 2)

theorem agrees_parseMoreList {mode : Mode} {ts : List Token} (h : Before whole ts mode)
    {separator : Symbol} (hseparator : (Lexeme.symbol separator).nesting = 0) :
    AgreesInFront eof (Visit.Right whole) mode (Reading.parseMoreList eof separator ts)
      (parseMoreItems eof mode separator ts) := by
  by_cases hend : front ts = some (.symbol .rparen)
  · obtain ⟨l, rest, rfl⟩ := front_eq_some.mp hend
    rw [Reading.parseMoreList, if_pos hend, parseMoreItems]
    exact ⟨_, .pure _, rfl⟩
  · rw [Reading.parseMoreList, if_neg hend, parseMoreItems]
    · refine h.bindInFront (.ofExcept _) (passes_of_expect hseparator) fun ⟨_, rest, hlt⟩ h => ?_
      refine h.bindInFront (agrees_parseAbove h .lowest) passes_of_parseAbove
        fun ⟨e, rest', hlt'⟩ h => ?_
      exact .cons (agrees_parseMoreList h hseparator) e (Nat.le_of_lt (length_lt_trans hlt hlt'))
    · rintro l rest rfl
      exact hend rfl
termination_by (ts.length, 0)

end

end agreement

end KLang
