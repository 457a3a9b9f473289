import KLang.Proofs.Parsing.Binding
import KLang.Proofs.Parsing.Outcome

/-!
# Expressions are read by the grammar

* Soundness: what the parser reads as an expression derives it, and the word behind does not bind
  tighter than the bound.
* Completeness: a derived expression is read, up to the followers behind it.
* Together: the parser accepts exactly the derivations of the grammar.
-/

namespace KLang

/-! ## Words -/

/-- The word that a follower begins with. -/
def Follower.word : Follower → Lexeme
  | .binary op => op.word
  | .call => .symbol .lparen
  | .member => .symbol .dot
  | .step op => op.word

theorem Lexeme.follower?_eq_some {w : Lexeme} {f : Follower} :
    w.follower? = some f ↔ w = f.word := by
  constructor
  · intro h
    cases w with
    | symbol s => cases s <;> cases h <;> rfl
    | keyword k =>
      cases k <;> cases h
      rfl
    | _ => cases h
  · rintro rfl
    match f with
    | .binary (.compare op) => cases op <;> rfl
    | .binary (.bitwise op) => cases op <;> rfl
    | .binary .add | .binary .sub | .binary .mul | .binary .div | .binary .rem | .binary .pow => rfl
    | .call | .member => rfl
    | .step op => cases op <;> rfl

theorem Lexeme.unary?_eq_some {w : Lexeme} {op : UnaryOperator} :
    w.unary? = some op ↔ w = op.word := by
  constructor
  · intro h
    cases w with
    | symbol s => cases s <;> cases h <;> rfl
    | _ => cases h
  · rintro rfl
    cases op <;> rfl

theorem Lexeme.extends_iff {w : Lexeme} : w.Extends ↔ ∃ f : Follower, w = f.word := by
  constructor
  · rintro (⟨op, h⟩ | h | h | ⟨op, h⟩)
    · exact ⟨.binary op, h⟩
    · exact ⟨.call, h⟩
    · exact ⟨.member, h⟩
    · exact ⟨.step op, h⟩
  · rintro ⟨f, h⟩
    cases f with
    | binary op => exact .inl ⟨op, h⟩
    | call => exact .inr (.inl h)
    | member => exact .inr (.inr (.inl h))
    | step op => exact .inr (.inr (.inr ⟨op, h⟩))

theorem Lexeme.follower?_eq_none {w : Lexeme} : w.follower? = none ↔ ¬ w.Extends := by
  rw [extends_iff, Option.eq_none_iff_forall_ne_some]
  simp only [ne_eq, follower?_eq_some, not_exists]

/-- How tightly a word binds the operand in front of it. -/
def Lexeme.precedence (mode : Mode) (w : Lexeme) : Precedence :=
  match w.follower? with
  | none => .lowest
  | some f => f.precedence mode

/-- How tightly the word at the front of tokens binds what stands before it. -/
def frontPrecedence (mode : Mode) (ts : List Token) : Precedence :=
  match ts with
  | [] => .lowest
  | t :: _ => t.lexeme.precedence mode

theorem Follower.precedence_word (mode : Mode) (f : Follower) :
    f.word.precedence mode = f.precedence mode := by
  rw [Lexeme.precedence, Lexeme.follower?_eq_some.mpr rfl]

theorem frontPrecedence_of_ends {mode : Mode} {rest : List Token} (h : Ends rest) :
    frontPrecedence mode rest = .lowest := by
  cases rest with
  | nil => rfl
  | cons t ts =>
    have := Lexeme.follower?_eq_none.mpr (h t rfl)
    simp [frontPrecedence, Lexeme.precedence, this]

theorem Follower.precedence_binary {mode : Mode} {op : BinaryOperator} (h : mode.Admits op) :
    (Follower.binary op).precedence mode = op.precedence := by
  cases op with
  | add =>
    obtain rfl | h := h
    · rfl
    · exact absurd rfl h
  | _ => rfl

theorem Follower.precedence_plain_ne_lowest (f : Follower) : f.precedence .plain ≠ .lowest := by
  match f with
  | .binary (.compare op) => cases op <;> decide
  | .binary (.bitwise op) => cases op <;> decide
  | .binary .add | .binary .sub | .binary .mul | .binary .div | .binary .rem | .binary .pow => decide
  | .call | .member => decide
  | .step op => cases op <;> decide

theorem Mode.admits_of_lt {mode : Mode} {op : BinaryOperator}
    (h : .lowest < (Follower.binary op).precedence mode) : mode.Admits op := by
  cases mode with
  | plain => exact .inl rfl
  | items =>
    right
    rintro rfl
    exact absurd h (by decide)

theorem front_eq_some {ts : List Token} {w : Lexeme} :
    front ts = some w ↔ ∃ l rest, ts = ⟨w, l⟩ :: rest := by
  cases ts with
  | nil => simp [front]
  | cons t ts =>
    obtain ⟨w', l⟩ := t
    simp [front]

theorem Derives.of_operands {mode : Mode} {op : BinaryOperator} {u v : List Token}
    {left right : Expr} (l : Option Location) (hadmits : mode.Admits op)
    (hleft : Derives mode op.precedence.before u left)
    (hright : Derives mode op.rightBound.above v right) :
    Derives mode op.precedence.formed (u ++ ⟨op.word, l⟩ :: v) (.binary l op left right) := by
  by_cases hop : op = .pow
  · subst hop
    exact .power l hleft hright
  · have hassoc := BinaryOperator.leftAssociative hop
    rw [BinaryOperator.rightBound_eq hop, hassoc.above_eq] at hright
    rw [hassoc.formed_eq]
    rw [← BinaryOperator.stratum_eq_before hop] at hleft hright ⊢
    exact .binary l hop hadmits hleft hright

/-! ## Soundness -/

variable {eof : Option Location}

mutual

/-- What is read above a bound derives an expression of the stratum above it, and the word behind
does not bind tighter than the bound. -/
theorem parseAbove_sound {mode : Mode} {bound : Precedence} {ts rest : List Token} {e : Expr}
    (h : outcome (parseAbove eof mode bound ts) = .ok (e, rest)) :
    ∃ u, ts = u ++ rest ∧ Derives mode bound.above u e ∧ frontPrecedence mode rest ≤ bound := by
  rw [outcome_parseAbove] at h
  obtain ⟨operand, rest', ho, hf⟩ := bind_eq_ok.mp h
  have hlt := length_lt_of_outcome ho
  obtain ⟨u, rfl, hu, hbefore⟩ := parseOperand_sound ho
  obtain ⟨v, rfl, he, hstop⟩ := parseFollowers_sound (hu.of_le bound.above_le_prefixed) hbefore hf
  exact ⟨u ++ v, by simp, he, hstop⟩
termination_by (ts.length, 1)

theorem parseOperand_sound {mode : Mode} {ts rest : List Token} {e : Expr}
    (h : outcome (parseOperand eof mode ts) = .ok (e, rest)) :
    ∃ u, ts = u ++ rest ∧ Derives mode .prefixed u e ∧
      Derives mode (frontPrecedence mode rest).before u e := by
  have primary {u : List Token} {e : Expr} (hu : Derives mode .primary u e) :
      Derives mode .prefixed u e ∧ Derives mode (frontPrecedence mode rest).before u e :=
    ⟨hu.of_primary, hu.of_primary⟩
  match ts with
  | [] => simp [parseOperand, failFront] at h
  | ⟨.identifier name, l⟩ :: ts =>
    rw [parseOperand] at h
    cases h
    exact ⟨[_], rfl, primary (.name l name)⟩
  | ⟨.number spelling value, l⟩ :: ts =>
    rw [parseOperand] at h
    cases h
    exact ⟨[_], rfl, primary (.number l spelling value)⟩
  | ⟨.string text, l⟩ :: ts =>
    rw [parseOperand] at h
    cases h
    exact ⟨[_], rfl, primary (.string l text)⟩
  | ⟨.keyword k, l⟩ :: ts => simp [parseOperand, Lexeme.unary?, failFront] at h
  | ⟨.symbol s, l⟩ :: ts =>
    by_cases hs : s = .lparen
    · subst hs
      rw [outcome_parseOperand_lparen] at h
      obtain ⟨inner, rest', hi, h⟩ := bind_eq_ok.mp h
      obtain ⟨r, rest'', hr, h⟩ := bind_eq_ok.mp h
      cases h
      obtain ⟨u, rfl, hu, -⟩ := parseAbove_sound hi
      rw [outcome_expect_eq_ok] at hr
      subst hr
      exact ⟨_, by simp, primary (.grouped l r hu)⟩
    · cases hw : (Lexeme.symbol s).unary? with
      | none =>
        rw [parseOperand] at h
        · simp [hw, failFront] at h
        all_goals simp [hs]
      | some op =>
        rw [outcome_parseOperand_unary eof mode l hw] at h
        obtain ⟨operand, rest', ho, h⟩ := bind_eq_ok.mp h
        cases h
        obtain ⟨u, rfl, hu, hstop⟩ := parseAbove_sound ho
        rw [Lexeme.unary?_eq_some.mp hw]
        have hu := Derives.unary l op hu
        exact ⟨_, rfl, hu, hu.of_le (Precedence.before_le_prefixed hstop)⟩
termination_by (ts.length, 0)

theorem parseFollowers_sound {mode : Mode} {bound : Precedence} {u ts rest : List Token}
    {left e : Expr} (habove : Derives mode bound.above u left)
    (hbefore : Derives mode (frontPrecedence mode ts).before u left)
    (h : outcome (parseFollowers eof mode bound left ts) = .ok (e, rest)) :
    ∃ v, ts = v ++ rest ∧ Derives mode bound.above (u ++ v) e ∧
      frontPrecedence mode rest ≤ bound := by
  match ts with
  | [] =>
    rw [parseFollowers] at h
    cases h
    exact ⟨[], rfl, by simpa using habove, Precedence.lowest_le _⟩
  | t :: ts =>
    rw [outcome_parseFollowers_cons] at h
    cases hf : t.lexeme.follower? with
    | none =>
      simp only [hf] at h
      cases h
      refine ⟨[], rfl, by simpa using habove, ?_⟩
      simp [frontPrecedence, Lexeme.precedence, hf, Precedence.lowest_le]
    | some f =>
      have hfront : frontPrecedence mode (t :: ts) = f.precedence mode := by
        simp [frontPrecedence, Lexeme.precedence, hf]
      simp only [hf] at h
      split at h
      · rename_i hlt
        obtain ⟨e', rest', he', hmore⟩ := bind_eq_ok.mp h
        have hlength := length_lt_of_outcome he'
        rw [hfront] at hbefore
        obtain ⟨v, rfl, hformed, hbefore'⟩ := parseFollower_sound hbefore
          (Precedence.lt_of_le_of_lt (Precedence.lowest_le _) hlt) (Lexeme.follower?_eq_some.mp hf)
          he'
        obtain ⟨w, rfl, he, hstop⟩ := parseFollowers_sound
          (hformed.of_le (Precedence.above_le_formed hlt)) hbefore' hmore
        exact ⟨t :: (v ++ w), by simp, by simpa using he, hstop⟩
      · rename_i hlt
        cases h
        refine ⟨[], rfl, by simpa using habove, ?_⟩
        rw [hfront]
        exact Precedence.not_lt.mp hlt
termination_by (ts.length, 0)

theorem parseFollower_sound {mode : Mode} {f : Follower} {u ts rest : List Token} {word : Token}
    {left e : Expr} (hbefore : Derives mode (f.precedence mode).before u left)
    (hbinds : .lowest < f.precedence mode) (hword : word.lexeme = f.word)
    (h : outcome (parseFollower eof mode f left word ts) = .ok (e, rest)) :
    ∃ v, ts = v ++ rest ∧ Derives mode (f.precedence mode).formed (u ++ word :: v) e ∧
      Derives mode (frontPrecedence mode rest).before (u ++ word :: v) e := by
  obtain ⟨w, l⟩ := word
  subst hword
  -- a postfixed expression may be followed by anything
  have postfixed {v : List Token} {e : Expr} (hv : Derives mode .postfixed v e) :
      Derives mode Precedence.postfixed.formed v e ∧
        Derives mode (frontPrecedence mode rest).before v e :=
    ⟨hv, hv.of_le (Precedence.before_le_postfixed _)⟩
  match f with
  | .binary op =>
    rw [outcome_parseFollower_binary] at h
    obtain ⟨right, rest', hr, h⟩ := bind_eq_ok.mp h
    cases h
    obtain ⟨v, rfl, hv, hstop⟩ := parseAbove_sound hr
    have hadmits := Mode.admits_of_lt hbinds
    rw [Follower.precedence_binary hadmits] at hbefore ⊢
    have hformed := Derives.of_operands l hadmits hbefore hv
    exact ⟨v, rfl, hformed, hformed.of_le (BinaryOperator.before_le_formed hstop)⟩
  | .call =>
    obtain ⟨l', callee, rfl⟩ := variable_of_outcome_call eof h
    rw [outcome_parseFollower_call] at h
    obtain ⟨arguments, rest', ha, h⟩ := bind_eq_ok.mp h
    cases h
    obtain ⟨v, r, rfl, pieces, separated, hpieces, rfl⟩ := parseItems_sound ha
    exact ⟨_, by simp, postfixed (.call l r hbefore separated hpieces)⟩
  | .member =>
    obtain ⟨l', module, rfl⟩ := variable_of_outcome_member eof h
    rw [outcome_parseFollower_member] at h
    obtain ⟨name, rest', hn, h⟩ := bind_eq_ok.mp h
    cases h
    obtain ⟨r, rfl⟩ := (outcome_expectName_eq_ok eof).mp hn
    exact ⟨[_], rfl, postfixed (.member l r name hbefore)⟩
  | .step op =>
    obtain ⟨l', name, rfl⟩ := variable_of_outcome_step eof h
    rw [outcome_parseFollower_step] at h
    cases h
    exact ⟨[], rfl, postfixed (.step l op hbefore)⟩
termination_by (ts.length, 3)

theorem parseItems_sound {mode : Mode} {separator : Symbol} {ts rest : List Token}
    {es : List Expr} (h : outcome (parseItems eof mode separator ts) = .ok (es, rest)) :
    ∃ v r, ts = v ++ ⟨.symbol .rparen, r⟩ :: rest ∧ IsList separator (IsExpr mode) v es := by
  by_cases hend : front ts = some (.symbol .rparen)
  · obtain ⟨r, ts, rfl⟩ := front_eq_some.mp hend
    rw [outcome_parseItems_rparen] at h
    cases h
    exact ⟨[], r, rfl, [], .nil, by simp, rfl⟩
  · rw [outcome_parseItems eof hend] at h
    obtain ⟨e, rest', he, h⟩ := bind_eq_ok.mp h
    obtain ⟨es, rest'', hes, h⟩ := bind_eq_ok.mp h
    cases h
    have hlt := length_lt_of_outcome he
    obtain ⟨u, rfl, hu, -⟩ := parseAbove_sound he
    obtain ⟨v, r, rfl, pieces, hbehind, hpieces, rfl⟩ := parseMoreItems_sound hes
    refine ⟨u ++ v, r, by simp, (u, e) :: pieces, .cons hbehind, ?_, rfl⟩
    exact List.forall_mem_cons.mpr ⟨hu, hpieces⟩
termination_by (ts.length, 2)

theorem parseMoreItems_sound {mode : Mode} {separator : Symbol} {ts rest : List Token}
    {es : List Expr} (h : outcome (parseMoreItems eof mode separator ts) = .ok (es, rest)) :
    ∃ v r, ts = v ++ ⟨.symbol .rparen, r⟩ :: rest ∧
      ∃ pieces : List (List Token × Expr), Behind separator (pieces.map Prod.fst) v ∧
        (∀ p ∈ pieces, IsExpr mode p.1 p.2) ∧ es = pieces.map Prod.snd := by
  by_cases hend : front ts = some (.symbol .rparen)
  · obtain ⟨r, ts, rfl⟩ := front_eq_some.mp hend
    rw [outcome_parseMoreItems_rparen] at h
    cases h
    exact ⟨[], r, rfl, [], .nil, by simp, rfl⟩
  · rw [outcome_parseMoreItems eof hend] at h
    obtain ⟨l, rest₁, hl, h⟩ := bind_eq_ok.mp h
    obtain ⟨e, rest₂, he, h⟩ := bind_eq_ok.mp h
    obtain ⟨es, rest₃, hes, h⟩ := bind_eq_ok.mp h
    cases h
    have hlt := length_lt_of_outcome hl
    have hlt' := length_lt_of_outcome he
    rw [outcome_expect_eq_ok] at hl
    subst hl
    obtain ⟨u, rfl, hu, -⟩ := parseAbove_sound he
    obtain ⟨v, r, rfl, pieces, hbehind, hpieces, rfl⟩ := parseMoreItems_sound hes
    refine ⟨⟨.symbol separator, l⟩ :: (u ++ v), r, by simp, (u, e) :: pieces, .cons l hbehind, ?_,
      rfl⟩
    exact List.forall_mem_cons.mpr ⟨hu, hpieces⟩
termination_by (ts.length, 0)

end

/-! ## Completeness -/

theorem parseFollowers_of_le {mode : Mode} {bound : Precedence} {e : Expr} {rest : List Token}
    (h : frontPrecedence mode rest ≤ bound) :
    outcome (parseFollowers eof mode bound e rest) = .ok (e, rest) := by
  cases rest with
  | nil =>
    rw [parseFollowers]
    rfl
  | cons t ts =>
    rw [outcome_parseFollowers_cons]
    cases hf : t.lexeme.follower? with
    | none => rfl
    | some f =>
      have hle : f.precedence mode ≤ bound := by
        simpa [frontPrecedence, Lexeme.precedence, hf] using h
      exact if_neg (Precedence.not_lt.mpr hle)

theorem parseFollowers_of_lt {mode : Mode} {bound : Precedence} {f : Follower}
    (h : bound < f.precedence mode) (left : Expr) (l : Option Location) (ts : List Token) :
    outcome (parseFollowers eof mode bound left (⟨f.word, l⟩ :: ts)) = (do
      let (e, rest) ← outcome (parseFollower eof mode f left ⟨f.word, l⟩ ts)
      outcome (parseFollowers eof mode bound e rest)) := by
  rw [outcome_parseFollowers_cons, Lexeme.follower?_eq_some.mpr rfl]
  exact if_pos h

theorem Derives.begins {mode : Mode} {s : Stratum} {u : List Token} {e : Expr}
    (h : Derives mode s u e) : ∃ t ts, u = t :: ts ∧ t.lexeme.Begins := by
  induction h with
  | next _ ih => exact ih
  | binary l _ _ _ _ ih _ | power l _ _ ih _ | member l r name _ ih | step l op _ ih =>
    obtain ⟨t, ts, rfl, ht⟩ := ih
    exact ⟨t, _, rfl, ht⟩
  | call l r _ _ _ ih _ =>
    obtain ⟨t, ts, rfl, ht⟩ := ih
    exact ⟨t, _, rfl, ht⟩
  | unary l op _ _ => exact ⟨_, _, rfl, by cases op <;> simp [Lexeme.Begins, UnaryOperator.word]⟩
  | number | string | name | grouped => exact ⟨_, _, rfl, by simp [Lexeme.Begins]⟩

/-- The parser reads the expression off its tokens, up to a word that binds nothing. -/
def IsRead (eof : Option Location) (mode : Mode) (p : List Token × Expr) : Prop :=
  ∀ rest, frontPrecedence mode rest = .lowest →
    outcome (parseAbove eof mode .lowest (p.1 ++ rest)) = .ok (p.2, rest)

theorem front_ne_of_begins {u : List Token} (h : ∃ t ts, u = t :: ts ∧ t.lexeme.Begins)
    (rest : List Token) {w : Lexeme} (hw : ¬ w.Begins) : front (u ++ rest) ≠ some w := by
  obtain ⟨t, ts, rfl, ht⟩ := h
  intro heq
  obtain rfl : t.lexeme = w := Option.some.inj heq
  exact hw ht

section items

variable {mode : Mode} {separator : Symbol} {pieces : List (List Token × Expr)}
  (hseparator : (Lexeme.symbol separator).precedence mode = .lowest)
  (hread : ∀ p ∈ pieces, IsRead eof mode p)
  (hbegins : ∀ p ∈ pieces, ∃ t ts, p.1 = t :: ts ∧ t.lexeme.Begins)

include hseparator in
theorem frontPrecedence_of_behind {us : List (List Token)} {w : List Token}
    (h : Behind separator us w) (r : Option Location) (rest : List Token) :
    frontPrecedence mode (w ++ ⟨.symbol .rparen, r⟩ :: rest) = .lowest := by
  cases h with
  | nil => rfl
  | cons => exact hseparator

include hseparator hread in
theorem parseMoreItems_complete (hne : separator ≠ .rparen) {v : List Token}
    (h : Behind separator (pieces.map Prod.fst) v) (r : Option Location) (rest : List Token) :
    outcome (parseMoreItems eof mode separator (v ++ ⟨.symbol .rparen, r⟩ :: rest)) =
      .ok (pieces.map Prod.snd, rest) := by
  induction pieces generalizing v with
  | nil =>
    cases h
    exact outcome_parseMoreItems_rparen ..
  | cons p pieces ih =>
    obtain ⟨hp, hpieces⟩ := List.forall_mem_cons.mp hread
    cases h with
    | cons l more =>
      have hstop := frontPrecedence_of_behind hseparator more r rest
      have hnext := ih hpieces more
      rw [List.cons_append, outcome_parseMoreItems]
      · rw [(outcome_expect_eq_ok eof).mpr rfl, List.append_assoc]
        simp only [ok_bind, hp _ hstop, hnext]
        rfl
      · simpa [front] using hne

include hseparator hread hbegins in
theorem parseItems_complete (hne : separator ≠ .rparen) {v : List Token}
    (h : Separated separator (pieces.map Prod.fst) v) (r : Option Location) (rest : List Token) :
    outcome (parseItems eof mode separator (v ++ ⟨.symbol .rparen, r⟩ :: rest)) =
      .ok (pieces.map Prod.snd, rest) := by
  match pieces, h with
  | [], .nil => exact outcome_parseItems_rparen ..
  | p :: pieces, .cons more =>
    obtain ⟨hp, hpieces⟩ := List.forall_mem_cons.mp hread
    have hstop := frontPrecedence_of_behind hseparator more r rest
    rw [List.append_assoc, outcome_parseItems]
    · have hmore := parseMoreItems_complete hseparator hpieces hne more r rest
      simp only [ok_bind, hp _ hstop, hmore]
      rfl
    · exact front_ne_of_begins (hbegins p List.mem_cons_self) _ (by simp [Lexeme.Begins])

end items

/-- Above a looser bound, a derived expression is read as the operand of what follows it. -/
theorem Derives.complete {mode : Mode} {s : Stratum} {u : List Token} {e : Expr}
    (h : Derives mode s u e) {bound : Precedence} {rest : List Token} (hbound : bound ≤ s.bound)
    (hrest : frontPrecedence mode rest ≤ s.limit) :
    outcome (parseAbove eof mode bound (u ++ rest)) =
      outcome (parseFollowers eof mode bound e rest) := by
  induction h generalizing bound rest with
  | @next mode s u e h ih =>
    exact ih (Precedence.le_trans hbound s.bound_le_bound_next)
      (Precedence.le_trans hrest s.limit_le_limit_next)
  | @binary mode op u v left right l hop hadmits _ _ ihleft ihright =>
    have hassoc := BinaryOperator.leftAssociative hop
    rw [BinaryOperator.stratum_eq_before hop] at hbound hrest ihleft ihright
    rw [hassoc.limit_before] at hrest ihleft
    have hprecedence := Follower.precedence_binary hadmits
    have hfront : frontPrecedence mode (⟨op.word, l⟩ :: (v ++ rest)) = op.precedence :=
      (Follower.precedence_word mode (.binary op)).trans hprecedence
    have hright : outcome (parseAbove eof mode op.rightBound (v ++ rest)) = .ok (right, rest) := by
      rw [BinaryOperator.rightBound_eq hop,
        ihright hassoc.le_bound_next (Precedence.le_trans hrest Precedence.le_limit_before_next)]
      exact parseFollowers_of_le hrest
    have hlt : bound < (Follower.binary op).precedence mode := by
      rw [hprecedence]
      exact Precedence.lt_of_le_of_lt hbound hassoc.bound_before_lt
    rw [List.append_assoc, List.cons_append, ihleft hbound (by rw [hfront]; exact Nat.le_refl _)]
    refine (parseFollowers_of_lt hlt left l _).trans ?_
    rw [outcome_parseFollower_binary, hright]
    rfl
  | @power mode u v base exponent l _ _ ihbase ihexponent =>
    have hright : outcome (parseAbove eof mode .product (v ++ rest)) = .ok (exponent, rest) := by
      rw [ihexponent (by decide) hrest]
      exact parseFollowers_of_le hrest
    have hlt : bound < (Follower.binary .pow).precedence mode :=
      Precedence.lt_of_le_of_lt hbound (show Precedence.product < .power by decide)
    rw [List.append_assoc, List.cons_append, ihbase (Precedence.le_trans hbound (by decide))]
    · refine (parseFollowers_of_lt hlt base l _).trans ?_
      rw [outcome_parseFollower_binary, BinaryOperator.rightBound, hright]
      rfl
    · exact show Precedence.power ≤ .prefixed by decide
  | @unary mode u operand l op _ ih =>
    have hoperand : outcome (parseAbove eof mode .prefixed (u ++ rest)) = .ok (operand, rest) := by
      rw [ih (by decide) hrest]
      exact parseFollowers_of_le hrest
    rw [outcome_parseAbove, List.cons_append,
      outcome_parseOperand_unary eof mode l (Lexeme.unary?_eq_some.mpr rfl), hoperand]
    rfl
  | @call mode u v callee arguments l' l r _ separated harguments ih iharguments =>
    have hitems : outcome (parseItems eof .plain .comma (v ++ ⟨.symbol .rparen, r⟩ :: rest)) =
        .ok (arguments.map Prod.snd, rest) := by
      refine parseItems_complete rfl ?_ (fun a ha => (harguments a ha).begins) (by decide)
        separated r rest
      intro a ha rest hrest
      rw [iharguments a ha (by decide) (by rw [hrest]; decide)]
      exact parseFollowers_of_le (by rw [hrest]; decide)
    rw [List.append_assoc, List.cons_append, List.append_assoc, List.singleton_append,
      ih hbound (Nat.le_refl _)]
    refine (parseFollowers_of_lt (f := .call) (Precedence.lt_postfixed hbound) _ l _).trans ?_
    rw [outcome_parseFollower_call, hitems]
    rfl
  | @member mode u module l' l r name _ ih =>
    rw [List.append_assoc, List.cons_append, ih hbound (Nat.le_refl _)]
    refine (parseFollowers_of_lt (f := .member) (Precedence.lt_postfixed hbound) _ l _).trans ?_
    rw [outcome_parseFollower_member, List.singleton_append,
      (outcome_expectName_eq_ok eof).mpr ⟨r, rfl⟩]
    rfl
  | @step mode u name l' l op _ ih =>
    rw [List.append_assoc, List.singleton_append, ih hbound (by cases op <;> exact Nat.le_refl _)]
    refine (parseFollowers_of_lt (f := .step op) (Precedence.lt_postfixed hbound) _ l _).trans ?_
    rw [outcome_parseFollower_step]
    rfl
  | number l spelling value =>
    rw [outcome_parseAbove, List.singleton_append, parseOperand]
    rfl
  | string l text =>
    rw [outcome_parseAbove, List.singleton_append, parseOperand]
    rfl
  | name l name =>
    rw [outcome_parseAbove, List.singleton_append, parseOperand]
    rfl
  | @grouped mode u e l r _ ih =>
    have hinner : outcome (parseAbove eof .plain .lowest (u ++ ⟨.symbol .rparen, r⟩ :: rest)) =
        .ok (e, ⟨.symbol .rparen, r⟩ :: rest) := by
      rw [ih (by decide) (Precedence.lowest_le _)]
      exact parseFollowers_of_le (Precedence.lowest_le _)
    rw [outcome_parseAbove, List.cons_append, List.append_assoc, List.singleton_append,
      outcome_parseOperand_lparen, hinner]
    simp only [ok_bind, (outcome_expect_eq_ok eof).mpr rfl]
    rfl

theorem parseExpr_sound {mode : Mode} {ts rest : List Token} {e : Expr}
    (h : outcome (parseExpr eof mode ts) = .ok (e, rest)) :
    ∃ u, ts = u ++ rest ∧ IsExpr mode u e ∧ frontPrecedence mode rest = .lowest := by
  obtain ⟨u, hu, he, hstop⟩ := parseAbove_sound h
  exact ⟨u, hu, he, Precedence.eq_lowest hstop⟩

theorem parseExpr_complete {mode : Mode} {u rest : List Token} {e : Expr} (h : IsExpr mode u e)
    (hrest : frontPrecedence mode rest = .lowest) :
    outcome (parseExpr eof mode (u ++ rest)) = .ok (e, rest) := by
  have hle : frontPrecedence mode rest ≤ .lowest := by
    rw [hrest]
    exact Nat.le_refl _
  rw [parseExpr, h.complete (Precedence.lowest_le _) (Precedence.le_trans hle (by decide))]
  exact parseFollowers_of_le hle

theorem outcome_parseExpr_eq_ok {mode : Mode} {ts rest : List Token} {e : Expr}
    (hrest : frontPrecedence mode rest = .lowest) :
    outcome (parseExpr eof mode ts) = .ok (e, rest) ↔ ∃ u, ts = u ++ rest ∧ IsExpr mode u e := by
  constructor
  · intro h
    obtain ⟨u, hu, he, -⟩ := parseExpr_sound h
    exact ⟨u, hu, he⟩
  · rintro ⟨u, rfl, he⟩
    exact parseExpr_complete he hrest

theorem outcome_parseExpr_append_eq_ok {mode : Mode} {u rest : List Token} {e : Expr}
    (hrest : frontPrecedence mode rest = .lowest) :
    outcome (parseExpr eof mode (u ++ rest)) = .ok (e, rest) ↔ IsExpr mode u e := by
  rw [outcome_parseExpr_eq_ok hrest]
  constructor
  · rintro ⟨u', hu, he⟩
    rwa [List.append_cancel_right hu]
  · intro he
    exact ⟨u, rfl, he⟩

theorem IsExpr.unique {mode : Mode} {u : List Token} {e e' : Expr} (h : IsExpr mode u e)
    (h' : IsExpr mode u e') : e = e' := by
  have hread : outcome (parseExpr none mode (u ++ [])) = .ok (e, []) := parseExpr_complete h rfl
  have hread' : outcome (parseExpr none mode (u ++ [])) = .ok (e', []) := parseExpr_complete h' rfl
  cases hread.symm.trans hread'
  rfl

theorem ends_of_frontPrecedence {rest : List Token} (h : frontPrecedence .plain rest = .lowest) :
    Ends rest := by
  intro t ht hextends
  obtain ⟨f, hf⟩ := Lexeme.extends_iff.mp hextends
  obtain ⟨ts, rfl⟩ := List.head?_eq_some_iff.mp ht
  rw [frontPrecedence, hf, Follower.precedence_word] at h
  exact f.precedence_plain_ne_lowest h

/-- **Reading with binding bounds is deriving in the stratified grammar.** In front of tokens that
do not go on with an expression, exactly the derivations of the grammar are read, each to its last
token. Where no beginning of the tokens derives an expression, reading fails. Tokens derive at most
one expression. -/
theorem parseExpr_iff_derives (eof : Option Location) :
    (∀ (u rest : List Token) (e : Expr), Ends rest →
      (outcome (parseExpr eof .plain (u ++ rest)) = .ok (e, rest) ↔ IsExpr .plain u e)) ∧
    (∀ ts : List Token, (∀ u rest e, ts = u ++ rest → Ends rest → ¬ IsExpr .plain u e) →
      ∃ error, parseExpr eof .plain ts = .error error) ∧
    ∀ (u : List Token) (e e' : Expr), IsExpr .plain u e → IsExpr .plain u e' → e = e' := by
  refine ⟨fun u rest e hrest => ?_, fun ts hnone => ?_, fun u e e' => IsExpr.unique⟩
  · exact outcome_parseExpr_append_eq_ok (frontPrecedence_of_ends hrest)
  · cases hread : parseExpr eof .plain ts with
    | error error => exact ⟨error, rfl⟩
    | ok p =>
      obtain ⟨u, hu, he, hstop⟩ := parseExpr_sound (congrArg outcome hread)
      exact absurd he (hnone u p.rest p.value hu (ends_of_frontPrecedence hstop))

theorem parseExpr_iff_derives_power :
    let words (ls : List Lexeme) : List Token := ls.map (⟨·, none⟩)
    let x (name : String) : Expr := .variable none ⟨none, name⟩
    outcome (parseExpr none .plain (words [.symbol .sub, .identifier "x", .symbol .pow,
      .identifier "y", .symbol .pow, .identifier "z"] ++ words [.symbol .semicolon])) =
      .ok (.binary none .pow (.unary none .neg (x "x")) (.binary none .pow (x "y") (x "z")),
        words [.symbol .semicolon]) := by
  intro words x
  have hends : Ends (words [.symbol .semicolon]) := ends_of_frontPrecedence rfl
  have hname (s : String) : Derives .plain .prefixed [⟨.identifier s, none⟩] (x s) :=
    (Derives.name none s).of_primary
  have hexponent := Derives.power none (hname "y") ((hname "z").of_le (by decide))
  refine ((parseExpr_iff_derives none).1 _ _ _ hends).mpr ?_
  exact (Derives.power none (.unary none .neg (hname "x")) hexponent).loosest

end KLang
