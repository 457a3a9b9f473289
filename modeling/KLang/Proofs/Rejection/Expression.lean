import KLang.Proofs.Rejection.Early

/-!
# Expressions fail at the earliest token

The followers of an operand extend an expression that may always end where they begin. So a follower
that goes wrong at its first word has gone wrong there and not before.
-/

namespace KLang

variable {eof : Option Location} {mode : Mode} {u w : List Token}

theorem isExpr_name (mode : Mode) (l : Option Location) (name : String) :
    IsExpr mode [⟨.identifier name, l⟩] (.variable l ⟨none, name⟩) :=
  (Derives.name l name).of_primary

/-! ## Lists up to a parenthesis -/

section lists

variable {α : Type} {separator : Symbol} {IsPiece : List Token → α → Prop} {a : α} {as : List α}

/-- The tokens form pieces, each behind a separator, and a `)`. -/
inductive IsTail (separator : Symbol) (IsPiece : List Token → α → Prop) :
    List Token → List α → Prop
  | nil (r : Option Location) : IsTail separator IsPiece [⟨.symbol .rparen, r⟩] []
  | cons {u w : List Token} {a : α} {as : List α} (l : Option Location) (hu : IsPiece u a)
      (more : IsTail separator IsPiece w as) :
      IsTail separator IsPiece (⟨.symbol separator, l⟩ :: (u ++ w)) (a :: as)

/-- The tokens form a list and a `)`. -/
def IsClosed (separator : Symbol) (IsPiece : List Token → α → Prop) (w : List Token)
    (as : List α) : Prop :=
  ∃ v r, w = v ++ [⟨.symbol .rparen, r⟩] ∧ IsList separator IsPiece v as

theorem IsTail.exists_behind (h : IsTail separator IsPiece w as) :
    ∃ v r, w = v ++ [⟨.symbol .rparen, r⟩] ∧ ∃ pieces : List (List Token × α),
      Behind separator (pieces.map Prod.fst) v ∧ (∀ p ∈ pieces, IsPiece p.1 p.2) ∧
      as = pieces.map Prod.snd := by
  induction h with
  | nil r => exact ⟨[], r, rfl, [], .nil, by simp, rfl⟩
  | @cons u _ a _ l hu _ ih =>
    obtain ⟨v, r, rfl, pieces, hbehind, hpieces, rfl⟩ := ih
    exact ⟨⟨.symbol separator, l⟩ :: (u ++ v), r, by simp, (u, a) :: pieces, .cons l hbehind,
      List.forall_mem_cons.mpr ⟨hu, hpieces⟩, rfl⟩

theorem IsClosed.nil (r : Option Location) :
    IsClosed separator IsPiece [⟨.symbol .rparen, r⟩] [] :=
  ⟨[], r, rfl, [], .nil, by simp, rfl⟩

theorem IsTail.closed (hu : IsPiece u a) (h : IsTail separator IsPiece w as) :
    IsClosed separator IsPiece (u ++ w) (a :: as) := by
  obtain ⟨v, r, rfl, pieces, hbehind, hpieces, rfl⟩ := h.exists_behind
  exact ⟨u ++ v, r, by simp, (u, a) :: pieces, .cons hbehind,
    List.forall_mem_cons.mpr ⟨hu, hpieces⟩, rfl⟩

end lists

/-! ## Followers -/

theorem parseFollower_call_of_ne {left : Expr} (h : ¬ ∃ l callee, left = .variable l callee)
    (word : Token) (ts : List Token) :
    outcome (parseFollower eof mode .call left word ts) =
      .error ⟨.callee, word.location, word :: ts⟩ := by
  rw [parseFollower]
  · rfl
  · rintro l callee rfl
    exact h ⟨l, callee, rfl⟩

theorem parseFollower_member_of_ne {left : Expr} (h : ¬ ∃ l name, left = .variable l ⟨none, name⟩)
    (word : Token) (ts : List Token) :
    outcome (parseFollower eof mode .member left word ts) =
      .error ⟨.moduleName, word.location, ts⟩ := by
  rw [parseFollower]
  · rfl
  · rintro l name rfl
    exact h ⟨l, name, rfl⟩

theorem parseFollower_step_of_ne {left : Expr} (op : PostfixOperator)
    (h : ¬ ∃ l name, left = .variable l ⟨none, name⟩) (word : Token) (ts : List Token) :
    outcome (parseFollower eof mode (.step op) left word ts) =
      .error ⟨.postfixTarget, word.location, ts⟩ := by
  rw [parseFollower]
  · rfl
  · rintro l name rfl
    exact h ⟨l, name, rfl⟩

/-- A follower together with the word that it begins with. -/
def followerAt (eof : Option Location) (mode : Mode) (f : Follower) (left : Expr) : Reader Expr
  | [] => .ok (left, [])
  | word :: ts => outcome (parseFollower eof mode f left word ts)

theorem Early.follower {f : Follower} {left : Expr} {word : Token} {ts : List Token}
    {Is : List Token → Expr → Prop} {G : Reader Expr}
    (hread : ∀ ts', outcome (parseFollower eof mode f left word ts') = G ts')
    (h : Early eof G (fun before => Viable Is (u ++ [word] ++ before)) ts) :
    Early eof (followerAt eof mode f left) (fun before => before = [] ∨ Viable Is (u ++ before))
      (word :: ts) := by
  refine .cons hread (h.mono fun before hbefore => .inr ?_)
  rwa [List.append_assoc] at hbefore

theorem frontPrecedence_congr {ts ts' : List Token} (h : ts'.head? = ts.head?) :
    frontPrecedence mode ts' = frontPrecedence mode ts := by
  cases ts <;> cases ts' <;> cases h <;> rfl

theorem exists_follower {bound : Precedence} {ts : List Token}
    (h : ¬ frontPrecedence mode ts ≤ bound) : ∃ (f : Follower) (l : Option Location)
      (rest : List Token), ts = ⟨f.word, l⟩ :: rest ∧ bound < f.precedence mode := by
  match ts with
  | [] => exact absurd (Precedence.lowest_le bound) h
  | ⟨w, l⟩ :: rest =>
    cases hf : w.follower? with
    | none =>
      simp only [frontPrecedence, Lexeme.precedence, hf] at h
      exact absurd (Precedence.lowest_le bound) h
    | some f =>
      simp only [frontPrecedence, Lexeme.precedence, hf] at h
      obtain rfl := Lexeme.follower?_eq_some.mp hf
      exact ⟨f, l, rest, rfl, Nat.not_le.mp h⟩

/-! ## Expressions -/

mutual

theorem parseAbove_early (mode : Mode) (bound : Precedence) (ts : List Token) :
    Early eof (fun ts => outcome (parseAbove eof mode bound ts))
      (Viable (Derives mode bound.above)) ts := by
  refine .congr (fun ts' _ => outcome_parseAbove eof mode bound ts') ?_
  refine (parseOperand_early mode ts).bind (fun before h => h.part [] fun v e he =>
    .of_is (he.of_le bound.above_le_prefixed)) fun operand rest hread => ?_
  have hlt := length_lt_of_outcome hread
  obtain ⟨u, hts, hu, hbefore⟩ := parseOperand_sound hread
  exact ⟨u, hts, parseFollowers_early (hu.of_le bound.above_le_prefixed) hbefore⟩
termination_by (ts.length, 1)

theorem parseOperand_early (mode : Mode) (ts : List Token) :
    Early eof (fun ts => outcome (parseOperand eof mode ts))
      (Viable (Derives mode .prefixed)) ts := by
  have hname : Viable (Derives mode .prefixed) [] :=
    ⟨_, _, (Derives.name none "x").of_primary⟩
  match ts with
  | [] =>
    refine .failFront .expectedExpression hname rfl fun ts' hhead => ?_
    rw [List.head?_eq_none_iff.mp hhead, parseOperand]
    rfl
  | ⟨.identifier name, l⟩ :: ts =>
    exact .cons (fun ts' => by rw [parseOperand]; rfl) (.pure (.variable l ⟨none, name⟩))
  | ⟨.number spelling value, l⟩ :: ts =>
    exact .cons (fun ts' => by rw [parseOperand]; rfl) (.pure (.number l value))
  | ⟨.string text, l⟩ :: ts =>
    exact .cons (fun ts' => by rw [parseOperand]; rfl) (.pure (.string l text))
  | ⟨.keyword k, l⟩ :: ts =>
    refine .failFront .expectedExpression hname rfl fun ts' hhead => ?_
    obtain ⟨ts', rfl⟩ := List.head?_eq_some_iff.mp hhead
    simp [parseOperand, Lexeme.unary?, failFront]
  | ⟨.symbol s, l⟩ :: ts =>
    by_cases hs : s = .lparen
    · subst hs
      refine .cons (outcome_parseOperand_lparen eof mode l) ?_
      have hinner : Follows eof (fun ts => outcome (parseAbove eof .plain .lowest ts))
          (IsExpr .plain) ts := ⟨parseAbove_early .plain .lowest ts, fun e rest h => by
        obtain ⟨u, hu, he, -⟩ := parseAbove_sound h
        exact ⟨u, hu, he⟩⟩
      have hgrouped {u : List Token} {e : Expr} (he : IsExpr .plain u e) (r : Option Location) :
          Derives mode .prefixed ([⟨.symbol .lparen, l⟩] ++ u ++ [⟨.symbol .rparen, r⟩]) e :=
        (Derives.grouped l r he).of_primary
      refine hinner.bind [⟨.symbol .lparen, l⟩] (fun u e he => (Viable.of_is (hgrouped he none)).of_append)
        fun u e rest _ he _ => ?_
      refine (expect_follows .rparen rest).bind _ ?_ fun _ _ _ _ _ _ => .pure e
      rintro _ r rfl
      exact .of_is (hgrouped he r)
    · cases hw : (Lexeme.symbol s).unary? with
      | none =>
        refine .failFront .expectedExpression hname rfl fun ts' hhead => ?_
        obtain ⟨ts', rfl⟩ := List.head?_eq_some_iff.mp hhead
        rw [parseOperand]
        · simp [hw, failFront]
        all_goals simp [hs]
      | some op =>
        refine .cons (outcome_parseOperand_unary eof mode l hw) ?_
        refine (parseAbove_early mode .prefixed ts).bind (fun before h => ?_) fun e rest hread => ?_
        · refine h.part [_] fun v e he => ?_
          rw [Lexeme.unary?_eq_some.mp hw]
          exact .of_is (.unary l op he)
        · obtain ⟨u, rfl, -⟩ := parseAbove_sound hread
          exact ⟨u, rfl, .pure _⟩
termination_by (ts.length, 0)

theorem parseFollowers_early {mode : Mode} {bound : Precedence} {u : List Token} {left : Expr}
    (habove : Derives mode bound.above u left) {ts : List Token}
    (hbefore : Derives mode (frontPrecedence mode ts).before u left) :
    Early eof (fun ts => outcome (parseFollowers eof mode bound left ts))
      (fun before => Viable (Derives mode bound.above) (u ++ before)) ts := by
  by_cases hstop : frontPrecedence mode ts ≤ bound
  · refine .congr (fun ts' hhead => parseFollowers_of_le ?_) (.pure left)
    rwa [frontPrecedence_congr hhead]
  · obtain ⟨f, l, ts, rfl, hlt⟩ := exists_follower hstop
    rw [frontPrecedence, Follower.precedence_word] at hbefore
    have hbinds : .lowest < f.precedence mode :=
      Precedence.lt_of_le_of_lt (Precedence.lowest_le _) hlt
    have habove' := Precedence.above_le_formed hlt
    have hfirst : Early eof (fun ts => followerAt eof mode f left ts >>= fun r =>
        outcome (parseFollowers eof mode bound r.1 r.2))
        (fun before => Viable (Derives mode bound.above) (u ++ before)) (⟨f.word, l⟩ :: ts) := by
      refine (parseFollower_early hbefore hbinds l ts).bind (fun before h => ?_)
        fun e rest hread => ?_
      · rcases h with rfl | h
        · exact .of_is (by rwa [List.append_nil])
        · exact h.part [] fun v e he => .of_is (he.of_le habove')
      · obtain ⟨v, rfl, hformed, hbefore'⟩ := parseFollower_sound hbefore hbinds rfl hread
        have hlength := length_lt_of_outcome hread
        have hmore := parseFollowers_early (hformed.of_le habove') hbefore'
        refine ⟨⟨f.word, l⟩ :: v, rfl, ?_⟩
        simp only [List.append_assoc] at hmore
        exact hmore
    refine .congr (fun ts' hhead => ?_) hfirst
    obtain ⟨ts', rfl⟩ := List.head?_eq_some_iff.mp hhead
    exact parseFollowers_of_lt hlt left l ts'
termination_by (ts.length, 0)

theorem parseFollower_early {mode : Mode} {f : Follower} {u : List Token} {left : Expr}
    (hbefore : Derives mode (f.precedence mode).before u left)
    (hbinds : .lowest < f.precedence mode) (l : Option Location) (ts : List Token) :
    Early eof (followerAt eof mode f left)
      (fun before => before = [] ∨ Viable (Derives mode (f.precedence mode).formed) (u ++ before))
      (⟨f.word, l⟩ :: ts) := by
  match f with
  | .binary op =>
    have hadmits := Mode.admits_of_lt hbinds
    rw [Follower.precedence_binary hadmits] at hbefore ⊢
    refine .follower (outcome_parseFollower_binary eof mode op left ⟨op.word, l⟩) ?_
    refine (parseAbove_early mode op.rightBound ts).bind (fun before h => h.part _ fun v e he => ?_)
      fun e rest hread => ?_
    · rw [List.append_assoc]
      exact .of_is (.of_operands l hadmits hbefore he)
    · obtain ⟨v, rfl, -⟩ := parseAbove_sound hread
      exact ⟨v, rfl, .pure _⟩
  | .call =>
    by_cases hleft : ∃ l callee, left = .variable l callee
    · obtain ⟨l', callee, rfl⟩ := hleft
      refine .follower (outcome_parseFollower_call eof mode l' callee ⟨_, l⟩) ?_
      refine (parseItems_early .plain .comma ts).bind (fun before h => h.part _ fun v es hes => ?_)
        fun es rest hread => ?_
      · obtain ⟨v, r, rfl, pieces, separated, hpieces, rfl⟩ := hes
        rw [List.append_assoc]
        exact .of_is (.call l r hbefore separated hpieces)
      · obtain ⟨v, r, rfl, -⟩ := parseItems_sound hread
        exact ⟨v ++ [⟨.symbol .rparen, r⟩], by simp, .pure _⟩
    · refine .fail .callee [] (.inl rfl) rfl nofun fun ts' hhead => ?_
      obtain ⟨ts', rfl⟩ := List.head?_eq_some_iff.mp (hhead rfl)
      exact parseFollower_call_of_ne hleft _ ts'
  | .member =>
    by_cases hleft : ∃ l module, left = .variable l ⟨none, module⟩
    · obtain ⟨l', module, rfl⟩ := hleft
      refine .follower (outcome_parseFollower_member eof mode l' module ⟨_, l⟩) ?_
      refine (expectName_follows ts).bind _ ?_ fun _ name _ _ _ _ => .pure _
      rintro _ name ⟨r, rfl⟩
      rw [List.append_assoc]
      exact .of_is (.member l r name hbefore)
    · refine .fail .moduleName [⟨_, l⟩] (.inl rfl) rfl nofun fun ts' _ => ?_
      exact parseFollower_member_of_ne hleft _ ts'
  | .step op =>
    by_cases hleft : ∃ l name, left = .variable l ⟨none, name⟩
    · obtain ⟨l', name, rfl⟩ := hleft
      exact .follower (outcome_parseFollower_step eof mode op l' name ⟨_, l⟩) (.pure _)
    · refine .fail .postfixTarget [⟨_, l⟩] (.inl rfl) rfl nofun fun ts' _ => ?_
      exact parseFollower_step_of_ne op hleft _ ts'
termination_by (ts.length, 3)

theorem parseItems_early (mode : Mode) (separator : Symbol) (ts : List Token) :
    Early eof (fun ts => outcome (parseItems eof mode separator ts))
      (Viable (IsClosed separator (IsExpr mode))) ts := by
  by_cases hend : front ts = some (.symbol .rparen)
  · obtain ⟨r, ts, rfl⟩ := front_eq_some.mp hend
    exact .cons (outcome_parseItems_rparen eof mode separator r) (.pure [])
  · refine .congr (fun ts' hhead => outcome_parseItems eof (by rwa [front_eq_of_head? hhead])) ?_
    refine (parseAbove_early mode .lowest ts).bind (fun before h => h.part [] fun u e he => ?_)
      fun e rest hread => ?_
    · exact .of_append (.of_is (IsTail.closed he (.nil none)))
    · have hlt := length_lt_of_outcome hread
      obtain ⟨u, hts, he, -⟩ := parseAbove_sound hread
      refine ⟨u, hts, (parseMoreItems_early mode separator rest).bind (fun before h => ?_)
        fun es rest hread => ?_⟩
      · exact h.part u fun w es hes => .of_is (hes.closed he)
      · obtain ⟨v, r, rfl, -⟩ := parseMoreItems_sound hread
        exact ⟨v ++ [⟨.symbol .rparen, r⟩], by simp, .pure _⟩
termination_by (ts.length, 2)

theorem parseMoreItems_early (mode : Mode) (separator : Symbol) (ts : List Token) :
    Early eof (fun ts => outcome (parseMoreItems eof mode separator ts))
      (Viable (IsTail separator (IsExpr mode))) ts := by
  by_cases hend : front ts = some (.symbol .rparen)
  · obtain ⟨r, ts, rfl⟩ := front_eq_some.mp hend
    exact .cons (outcome_parseMoreItems_rparen eof mode separator r) (.pure [])
  · have hone {u : List Token} {e : Expr} (he : IsExpr mode u e) (l : Option Location) :
        Viable (IsTail separator (IsExpr mode)) ([] ++ [⟨.symbol separator, l⟩] ++ u) :=
      .of_append (.of_is (by simpa using IsTail.cons l he (.nil none)))
    refine .congr (fun ts' hhead => outcome_parseMoreItems eof (by rwa [front_eq_of_head? hhead])) ?_
    refine (expect_follows separator ts).bind [] ?_ fun u l rest hts hl hread => ?_
    · rintro _ l rfl
      exact (hone (isExpr_name mode none "x") l).of_append
    obtain rfl := hl
    have hlt := length_lt_of_outcome hread
    refine (parseAbove_early mode .lowest rest).bind (fun before h => h.part _ fun u e he => ?_)
      fun e rest hread => ?_
    · exact hone he l
    · have hlt := length_lt_of_outcome hread
      obtain ⟨u, hts, he, -⟩ := parseAbove_sound hread
      refine ⟨u, hts, (parseMoreItems_early mode separator rest).bind (fun before h => ?_)
        fun es rest hread => ?_⟩
      · rw [← List.append_assoc]
        exact h.part _ fun w es hes => .of_is (.cons l he hes)
      · obtain ⟨v, r, rfl, -⟩ := parseMoreItems_sound hread
        exact ⟨v ++ [⟨.symbol .rparen, r⟩], by simp, .pure _⟩
termination_by (ts.length, 0)

end

end KLang
