import KLang.Proofs.Parsing.Statement
import KLang.Proofs.Rejection.Expression
import Mathlib.Data.Fintype.EquivFin

/-!
# Statements fail at the earliest token

Each part of a statement is read behind a beginning of that statement. Where the part goes wrong, the
beginning goes on with the shortest part of its kind: a name, no items, no statements.
-/

namespace KLang

variable {eof : Option Location} {ts : List Token}

/-! ## Expressions and items as parts -/

theorem parseExpr_follows (mode : Mode) (ts : List Token) :
    Follows eof (fun ts => outcome (parseExpr eof mode ts)) (IsExpr mode) ts where
  early := parseAbove_early mode .lowest ts
  sound e rest h := by
    obtain ⟨u, hts, he, -⟩ := parseExpr_sound h
    exact ⟨u, hts, he⟩

theorem parseItems_follows (mode : Mode) (separator : Symbol) (ts : List Token) :
    Follows eof (fun ts => outcome (parseItems eof mode separator ts))
      (IsClosed separator (IsExpr mode)) ts where
  early := parseItems_early mode separator ts
  sound es rest h := by
    obtain ⟨v, r, rfl, hv⟩ := parseItems_sound h
    exact ⟨v ++ [⟨.symbol .rparen, r⟩], by simp, v, r, rfl, hv⟩

/-! ## Statements without blocks -/

theorem parseDeclaration_early (l : Option Location) (kind : Kind) (ts : List Token) :
    Early eof (fun ts => outcome (parseDeclaration eof l kind ts))
      (fun before => Viable IsStatement ([⟨.keyword (.kind kind), l⟩] ++ before)) ts := by
  have hvalue {u : List Token} {e : Expr} (he : IsExpr .plain u e) (name : String)
      (l₁ l₂ : Option Location) : Viable IsStatement ([⟨.keyword (.kind kind), l⟩] ++
        [⟨.identifier name, l₁⟩] ++ [⟨.symbol .assign, l₂⟩] ++ u) :=
    ⟨[⟨.symbol .semicolon, none⟩], _, .declare l l₁ l₂ none kind name he⟩
  have hx := isExpr_name .plain none "x"
  refine .congr (fun ts' _ => outcome_parseDeclaration l kind ts') ?_
  refine (expectName_follows ts).bind _ ?_ fun _ name rest _ hname _ => ?_
  · rintro _ name ⟨l₁, rfl⟩
    exact (hvalue hx name l₁ none).of_append.of_append
  obtain ⟨l₁, rfl⟩ := hname
  refine (expect_follows .assign rest).bind _ ?_ fun _ l₂ rest _ hassign _ => ?_
  · rintro _ l₂ rfl
    exact (hvalue hx name l₁ l₂).of_append
  obtain rfl := hassign
  refine (parseExpr_follows .plain rest).bind _ (fun u e he => hvalue he name l₁ l₂)
    fun u e rest _ he _ => ?_
  refine (expect_follows .semicolon rest).bind _ ?_ fun _ _ _ _ _ _ => .pure _
  rintro _ r rfl
  exact .of_is (.declare l l₁ l₂ r kind name he)

theorem parsePrint_early (l : Option Location) (ts : List Token) :
    Early eof (fun ts => outcome (parsePrint eof l ts))
      (fun before => Viable IsStatement ([⟨.keyword .printWord, l⟩] ++ before)) ts := by
  have hprint {w : List Token} {es : List Expr} (hw : IsClosed .add (IsExpr .items) w es)
      (l₁ r₁ : Option Location) : IsStatement ([⟨.keyword .printWord, l⟩] ++
        [⟨.symbol .lparen, l₁⟩] ++ w ++ [⟨.symbol .semicolon, r₁⟩]) (.print l es) := by
    obtain ⟨v, r, rfl, hes⟩ := hw
    simpa using IsStatement.print l l₁ r r₁ hes
  refine .congr (fun ts' _ => outcome_parsePrint l ts') ?_
  refine (expect_follows .lparen ts).bind _ ?_ fun _ l₁ rest _ hparen _ => ?_
  · rintro _ l₁ rfl
    exact .of_append (.of_append (.of_is (hprint (.nil none) l₁ none)))
  obtain rfl := hparen
  refine (parseItems_follows .items .add rest).bind _ (fun w es hw => ?_) fun w es rest _ hw _ => ?_
  · exact .of_append (.of_is (hprint hw l₁ none))
  refine (expect_follows .semicolon rest).bind _ ?_ fun _ _ _ _ _ _ => .pure _
  rintro _ r₁ rfl
  exact .of_is (hprint hw l₁ r₁)

theorem parseReturn_early (l : Option Location) (ts : List Token) :
    Early eof (fun ts => outcome (parseReturn eof l ts))
      (fun before => Viable IsStatement ([⟨.keyword .returnWord, l⟩] ++ before)) ts := by
  by_cases hend : front ts = some (.symbol .semicolon)
  · obtain ⟨r, ts, rfl⟩ := front_eq_some.mp hend
    exact .cons (fun ts' => rfl) (.pure (Statement.returnValue l none))
  · refine .congr (fun ts' hhead => outcome_parseReturn l (by rwa [front_eq_of_head? hhead])) ?_
    refine (parseExpr_follows .plain ts).bind _ (fun u e he => ?_) fun u e rest _ he _ => ?_
    · exact ⟨[⟨.symbol .semicolon, none⟩], _, IsStatement.returnValue l none he⟩
    refine (expect_follows .semicolon rest).bind _ ?_ fun _ _ _ _ _ _ => .pure _
    rintro _ r rfl
    exact .of_is (IsStatement.returnValue l r he)

theorem parseImport_early (l : Option Location) (ts : List Token) :
    Early eof (fun ts => outcome (parseImport eof l ts))
      (fun before => Viable IsStatement ([⟨.keyword .importWord, l⟩] ++ before)) ts := by
  refine .congr (fun ts' _ => outcome_parseImport l ts') ?_
  refine (expectName_follows ts).bind _ ?_ fun _ name rest _ hname _ => ?_
  · rintro _ name ⟨l₁, rfl⟩
    exact ⟨[⟨.symbol .semicolon, none⟩], _, .importModule l l₁ none name⟩
  obtain ⟨l₁, rfl⟩ := hname
  refine (expect_follows .semicolon rest).bind _ ?_ fun _ _ _ _ _ _ => .pure _
  rintro _ r rfl
  exact .of_is (.importModule l l₁ r name)

section simple

variable {l : Option Location} {name : String} {u : List Token} {e : Expr}
  (he : IsExpr .plain (⟨.identifier name, l⟩ :: u) e)

include he

theorem parseAssigned_early (ts : List Token) :
    Early eof (fun ts => outcome (parseAssigned eof l e ts))
      (fun before => Viable IsStatement (⟨.identifier name, l⟩ :: u ++ before)) ts := by
  by_cases htarget : ∃ l' target, e = .variable l' target
  · obtain ⟨l', target, rfl⟩ := htarget
    have hvalue {v : List Token} {value : Expr} (hv : IsExpr .plain v value)
        (l₁ r : Option Location) : IsStatement (⟨.identifier name, l⟩ :: u ++
          [⟨.symbol .assign, l₁⟩] ++ v ++ [⟨.symbol .semicolon, r⟩]) (.assign l l' target value) := by
      simpa using IsStatement.assign l l₁ r name he hv
    refine .congr (fun ts' _ => outcome_parseAssigned l l' target ts') ?_
    refine (expect_follows .assign ts).bind _ ?_ fun _ l₁ rest _ hl _ => ?_
    · rintro _ l₁ rfl
      exact .of_append (.of_append (.of_is (hvalue (isExpr_name .plain none "x") l₁ none)))
    obtain rfl := hl
    refine (parseExpr_follows .plain rest).bind _ (fun v value hv => ?_) fun v value rest _ hv _ => ?_
    · exact .of_append (.of_is (hvalue hv l₁ none))
    refine (expect_follows .semicolon rest).bind _ ?_ fun _ _ _ _ _ _ => .pure _
    rintro _ r rfl
    exact .of_is (hvalue hv l₁ r)
  · refine .failFront (fun _ => .assignmentTarget) ?_ rfl fun ts' _ => ?_
    · rw [List.append_nil]
      exact .of_append (.of_is (.evaluate l none name he))
    · rw [parseAssigned]
      · rfl
      · rintro l' target rfl
        exact htarget ⟨l', target, rfl⟩

omit he in
/-- What is behind the first expression of a statement that is an expression or an assignment. -/
def simpleBehind (eof l : Option Location) (e : Expr) (ts : List Token) :
    Except ParseError (Statement × List Token) :=
  if front ts = some (.symbol .assign) then outcome (parseAssigned eof l e ts)
  else do
    let (_, rest) ← outcome (expect eof .semicolon ts)
    return (.evaluate l e, rest)

theorem simpleBehind_early (ts : List Token) :
    Early eof (simpleBehind eof l e)
      (fun before => Viable IsStatement (⟨.identifier name, l⟩ :: u ++ before)) ts := by
  by_cases hassign : front ts = some (.symbol .assign)
  · exact .congr (fun ts' hhead => if_pos (by rwa [front_eq_of_head? hhead]))
      (parseAssigned_early he ts)
  · refine .congr (fun ts' hhead => if_neg (by rwa [front_eq_of_head? hhead])) ?_
    refine (expect_follows .semicolon ts).bind _ ?_ fun _ _ _ _ _ _ => .pure _
    rintro _ r rfl
    exact .of_is (.evaluate l r name he)

end simple

theorem outcome_parseSimple_identifier (l : Option Location) (name : String) (ts : List Token) :
    outcome (parseSimple eof l (⟨.identifier name, l⟩ :: ts)) = (do
      let (e, rest) ← outcome (parseFollowers eof .plain .lowest (.variable l ⟨none, name⟩) ts)
      simpleBehind eof l e rest) := by
  have hread : outcome (parseExpr eof .plain (⟨.identifier name, l⟩ :: ts)) =
      outcome (parseFollowers eof .plain .lowest (.variable l ⟨none, name⟩) ts) := by
    rw [parseExpr, outcome_parseAbove, parseOperand]
    rfl
  rw [outcome_parseSimple, hread]
  rfl

theorem parseSimple_early (l : Option Location) (name : String) (ts : List Token) :
    Early eof (fun ts => outcome (parseSimple eof l ts)) (Viable IsStatement)
      (⟨.identifier name, l⟩ :: ts) := by
  have hname : Derives .plain .primary [⟨.identifier name, l⟩] (.variable l ⟨none, name⟩) :=
    .name l name
  have hbefore : Derives .plain (frontPrecedence .plain ts).before _ _ :=
    hname.of_primary
  have habove : Derives .plain Precedence.lowest.above _ _ := hname.of_primary
  refine .cons (outcome_parseSimple_identifier l name) ?_
  refine (parseFollowers_early habove hbefore).bind (fun before h => ?_) fun e rest hread => ?_
  · obtain ⟨w, e, he⟩ := h
    exact ⟨w ++ [⟨.symbol .semicolon, none⟩], _, by simpa using IsStatement.evaluate l none name he⟩
  · obtain ⟨v, hts, he, -⟩ := parseFollowers_sound habove hbefore hread
    exact ⟨v, hts, simpleBehind_early he rest⟩

/-! ## Parameters and conditions -/

/-- A parameter whose name has not been seen. -/
def IsFresh (seen : List String) (u : List Token) (p : Parameter) : Prop :=
  IsParameter u p ∧ p.name ∉ seen

/-- Parameters with different names that have not been seen, each behind a comma, and a `)`. -/
def IsFreshTail (seen : List String) (w : List Token) (ps : List Parameter) : Prop :=
  IsTail .comma IsParameter w ps ∧ (ps.map Parameter.name).Nodup ∧ ∀ p ∈ ps, p.name ∉ seen

theorem viable_isFresh (seen : List String) (l : Option Location) (kind : Kind) :
    Viable (IsFresh seen) [⟨.keyword (.kind kind), l⟩] := by
  obtain ⟨name, hname⟩ := Infinite.exists_notMem_finset seen.toFinset
  exact ⟨[⟨.identifier name, none⟩], ⟨l, kind, name⟩, .mk l none kind name, by simpa using hname⟩

theorem IsFreshTail.nil (seen : List String) (r : Option Location) :
    IsFreshTail seen [⟨.symbol .rparen, r⟩] [] :=
  ⟨.nil r, .nil, by simp⟩

theorem nodup_cons_of_fresh {p : Parameter} {ps : List Parameter} {seen : List String}
    (hnodup : (ps.map Parameter.name).Nodup) (hfresh : ∀ q ∈ ps, q.name ∉ p.name :: seen) :
    ((p :: ps).map Parameter.name).Nodup := by
  rw [List.map_cons, List.nodup_cons]
  refine ⟨fun hmem => ?_, hnodup⟩
  obtain ⟨q, hq, heq⟩ := List.mem_map.mp hmem
  exact hfresh q hq (heq ▸ List.mem_cons_self)

theorem IsFreshTail.cons {seen : List String} {u w : List Token} {p : Parameter}
    {ps : List Parameter} (l : Option Location) (hu : IsFresh seen u p)
    (hw : IsFreshTail (p.name :: seen) w ps) :
    IsFreshTail seen (⟨.symbol .comma, l⟩ :: (u ++ w)) (p :: ps) := by
  obtain ⟨htail, hnodup, hfresh⟩ := hw
  refine ⟨.cons l hu.1 htail, nodup_cons_of_fresh hnodup hfresh, ?_⟩
  exact List.forall_mem_cons.mpr ⟨hu.2, fun q hq hseen => hfresh q hq (List.mem_cons_of_mem _ hseen)⟩

/-- Parameters and a `)`. -/
def IsClosedParameters (w : List Token) (ps : List Parameter) : Prop :=
  IsClosed .comma IsParameter w ps ∧ (ps.map Parameter.name).Nodup

theorem IsFreshTail.closed {u w : List Token} {p : Parameter} {ps : List Parameter}
    (hu : IsFresh [] u p) (hw : IsFreshTail [p.name] w ps) : IsClosedParameters (u ++ w) (p :: ps) :=
  ⟨hw.1.closed hu.1, nodup_cons_of_fresh hw.2.1 hw.2.2⟩

theorem outcome_parseParameter_cons (seen : List String) (l l' : Option Location) (kind : Kind)
    (name : String) (ts : List Token) :
    outcome (parseParameter eof seen (⟨.keyword (.kind kind), l⟩ :: ⟨.identifier name, l'⟩ :: ts)) =
      if name ∈ seen then .error ⟨.duplicateParameter name, l, ts⟩
      else .ok (⟨l, kind, name⟩, ts) := by
  rw [outcome_parseParameter, (outcome_expectKind_eq_ok eof).mpr ⟨l, rfl⟩]
  simp only [ok_bind, (outcome_expectName_eq_ok eof).mpr ⟨l', rfl⟩]
  rfl

theorem outcome_parseParameter_of_ne_name (seen : List String) (l : Option Location) (kind : Kind)
    (h : ∀ name, front ts ≠ some (.identifier name)) :
    outcome (parseParameter eof seen (⟨.keyword (.kind kind), l⟩ :: ts)) =
      failFront eof .expectedIdentifier ts := by
  rw [outcome_parseParameter, (outcome_expectKind_eq_ok eof).mpr ⟨l, rfl⟩, ok_bind]
  dsimp only
  rw [outcome_expectName_of_ne h]
  rfl

theorem outcome_parseParameter_of_ne_kind (seen : List String)
    (h : ∀ kind, front ts ≠ some (.keyword (.kind kind))) :
    outcome (parseParameter eof seen ts) = failFront eof .expectedKind ts := by
  rw [outcome_parseParameter, outcome_expectKind_of_ne h]
  rfl

theorem parseParameter_early (seen : List String) (ts : List Token) :
    Early eof (fun ts => outcome (parseParameter eof seen ts)) (Viable (IsFresh seen)) ts := by
  have hviable := viable_isFresh seen
  by_cases hkind : ∃ kind, front ts = some (.keyword (.kind kind))
  · obtain ⟨kind, hkind⟩ := hkind
    obtain ⟨l, ts, rfl⟩ := front_eq_some.mp hkind
    by_cases hname : ∃ name, front ts = some (.identifier name)
    · obtain ⟨name, hname⟩ := hname
      obtain ⟨l', ts, rfl⟩ := front_eq_some.mp hname
      have hread := @outcome_parseParameter_cons eof seen l l' kind name
      by_cases hseen : name ∈ seen
      · -- both tokens are read before the name turns out to be a repeated one
        simp only [if_pos hseen] at hread
        refine .fail (.duplicateParameter name) [_, _] (hviable l kind).of_append rfl ?_
          fun ts' _ => hread ts'
        rintro _ ⟨⟩
        exact ⟨kind, l, l', rfl⟩
      · simp only [if_neg hseen] at hread
        exact .cons (fun ts' => rfl) (.cons hread (.pure _))
    · refine .cons (fun ts' => rfl) (.failFront .expectedIdentifier (hviable l kind) rfl ?_)
      refine fun ts' hhead => outcome_parseParameter_of_ne_name seen l kind fun name h => ?_
      exact hname ⟨name, by rwa [front_eq_of_head? hhead] at h⟩
  · refine .failFront .expectedKind (hviable none .var).of_append rfl fun ts' hhead => ?_
    refine outcome_parseParameter_of_ne_kind seen fun kind h => ?_
    exact hkind ⟨kind, by rwa [front_eq_of_head? hhead] at h⟩

theorem parseParameter_follows (seen : List String) (ts : List Token) :
    Follows eof (fun ts => outcome (parseParameter eof seen ts)) (IsFresh seen) ts where
  early := parseParameter_early seen ts
  sound p rest h := by
    obtain ⟨u, hts, hu, hseen⟩ := parseParameter_eq_ok.mp h
    exact ⟨u, hts, hu, hseen⟩

theorem parseMoreParameters_early (seen : List String) (ts : List Token) :
    Early eof (fun ts => outcome (parseMoreParameters eof seen ts)) (Viable (IsFreshTail seen)) ts := by
  by_cases hend : front ts = some (.symbol .rparen)
  · obtain ⟨r, ts, rfl⟩ := front_eq_some.mp hend
    exact .cons (parseMoreParameters_rparen seen r) (.pure [])
  · have hone {u : List Token} {p : Parameter} (hu : IsFresh seen u p) (l : Option Location) :
        Viable (IsFreshTail seen) ([] ++ [⟨.symbol .comma, l⟩] ++ u) :=
      .of_append (.of_is (by simpa using IsFreshTail.cons l hu (.nil _ none)))
    refine .congr (fun ts' hhead => outcome_parseMoreParameters (by rwa [front_eq_of_head? hhead])) ?_
    refine (expect_follows .comma ts).bind [] ?_ fun _ l rest _ hl hread => ?_
    · rintro _ l rfl
      obtain ⟨w, p, hu⟩ := viable_isFresh seen none .var
      exact (hone hu l).of_append
    obtain rfl := hl
    have hlt := length_lt_of_outcome hread
    refine (parseParameter_follows seen rest).bind _ (fun u p hu => hone hu l)
      fun u p rest hts hu hread => ?_
    have hlt := length_lt_of_outcome hread
    refine (parseMoreParameters_early (p.name :: seen) rest).bind (fun before h => ?_)
      fun ps rest hread => ?_
    · exact h.part _ fun w ps hw => .of_is (.cons l hu hw)
    · obtain ⟨v, r, rfl, -⟩ := parseMoreParameters_sound hread
      exact ⟨v ++ [⟨.symbol .rparen, r⟩], by simp, .pure _⟩
termination_by ts.length

theorem parseParameters_follows (ts : List Token) :
    Follows eof (fun ts => outcome (parseParameters eof ts)) IsClosedParameters ts where
  early := by
    by_cases hend : front ts = some (.symbol .rparen)
    · obtain ⟨r, ts, rfl⟩ := front_eq_some.mp hend
      exact .cons (fun ts' => rfl) (.pure [])
    · refine .congr (fun ts' hhead => outcome_parseParameters (by rwa [front_eq_of_head? hhead])) ?_
      refine (parseParameter_follows [] ts).bind [] (fun u p hu => ?_) fun u p rest _ hu _ => ?_
      · exact .of_append (.of_is (IsFreshTail.closed hu (.nil _ none)))
      refine (parseMoreParameters_early [p.name] rest).bind (fun before h => ?_) fun ps rest hread => ?_
      · exact h.part _ fun w ps hw => .of_is (hw.closed hu)
      · obtain ⟨v, r, rfl, -⟩ := parseMoreParameters_sound hread
        exact ⟨v ++ [⟨.symbol .rparen, r⟩], by simp, .pure _⟩
  sound ps rest h := by
    obtain ⟨v, r, rfl, hlist, hnodup⟩ := parseParameters_eq_ok.mp h
    exact ⟨v ++ [⟨.symbol .rparen, r⟩], by simp, ⟨v, r, rfl, hlist⟩, hnodup⟩

theorem parseCondition_follows (ts : List Token) :
    Follows eof (fun ts => outcome (parseCondition eof ts)) IsCondition ts where
  early := by
    refine .congr (fun ts' _ => outcome_parseCondition ts') ?_
    refine (expect_follows .lparen ts).bind [] ?_ fun _ l rest _ hl _ => ?_
    · rintro _ l rfl
      exact ⟨[_, ⟨.symbol .rparen, none⟩], _, .mk l none (isExpr_name .plain none "x")⟩
    obtain rfl := hl
    refine (parseExpr_follows .plain rest).bind _ (fun u e he => ?_) fun u e rest _ he _ => ?_
    · exact ⟨[⟨.symbol .rparen, none⟩], _, .mk l none he⟩
    refine (expect_follows .rparen rest).bind _ ?_ fun _ _ _ _ _ _ => .pure _
    rintro _ r rfl
    exact .of_is (.mk l r he)
  sound e rest := parseCondition_eq_ok.mp

theorem headerBehind_early {u : List Token} {kind : Kind} (hkind : IsResultKind u kind)
    (ts : List Token) :
    Early eof (headerBehind eof kind) (fun before => Viable IsHeader (u ++ before)) ts := by
  have hheader {w : List Token} {ps : List Parameter} (hw : IsClosedParameters w ps) (name : String)
      (l l' : Option Location) : IsHeader (u ++ [⟨.identifier name, l⟩] ++ [⟨.symbol .lparen, l'⟩] ++ w)
        (kind, name, ps) := by
    obtain ⟨⟨v, r, rfl, hlist⟩, hnodup⟩ := hw
    simpa using IsHeader.mk l l' r name hkind ⟨hlist, hnodup⟩
  have hnone : IsClosedParameters [⟨.symbol .rparen, none⟩] [] := ⟨.nil none, .nil⟩
  refine (expectName_follows ts).bind _ ?_ fun _ name rest _ hname _ => ?_
  · rintro _ name ⟨l, rfl⟩
    exact .of_append (.of_append (.of_is (hheader hnone name l none)))
  obtain ⟨l, rfl⟩ := hname
  refine (expect_follows .lparen rest).bind _ ?_ fun _ l' rest _ hl _ => ?_
  · rintro _ l' rfl
    exact .of_append (.of_is (hheader hnone name l l'))
  obtain rfl := hl
  refine (parseParameters_follows rest).bind _ (fun w ps hw => ?_) fun _ _ _ _ _ _ => .pure _
  exact .of_is (hheader hw name l l')

theorem parseHeader_follows (ts : List Token) :
    Follows eof (fun ts => outcome (parseHeader eof ts)) IsHeader ts where
  early := by
    by_cases hkind : ∃ kind, front ts = some (.keyword (.kind kind))
    · obtain ⟨kind, hkind⟩ := hkind
      obtain ⟨l, ts, rfl⟩ := front_eq_some.mp hkind
      exact .cons (outcome_parseHeader_given l kind) (headerBehind_early (.given l kind) ts)
    · refine .congr (fun ts' hhead => outcome_parseHeader_absent fun kind h => ?_)
        (headerBehind_early .absent ts)
      exact hkind ⟨kind, by rwa [front_eq_of_head? hhead] at h⟩
  sound header rest := parseHeader_eq_ok.mp

/-! ## Statements with blocks -/

/-- Whether a statement can begin with the word. -/
def Lexeme.startsStatement : Lexeme → Bool
  | .identifier _ => true
  | .keyword k => k ≠ .elifWord ∧ k ≠ .elseWord ∧ k ≠ .xorWord
  | _ => false

theorem outcome_parseStatement_of_not_starts
    (h : ∀ t ∈ ts.head?, t.lexeme.startsStatement = false) :
    outcome (parseStatement eof ts) = failFront eof .unexpectedToken ts := by
  match ts with
  | [] | ⟨.number .., _⟩ :: _ | ⟨.string _, _⟩ :: _ | ⟨.symbol _, _⟩ :: _
  | ⟨.keyword .elifWord, _⟩ :: _ | ⟨.keyword .elseWord, _⟩ :: _ | ⟨.keyword .xorWord, _⟩ :: _ =>
    simp [parseStatement, failFront]
  | ⟨.identifier _, _⟩ :: _ | ⟨.keyword (.kind _), _⟩ :: _ | ⟨.keyword .printWord, _⟩ :: _
  | ⟨.keyword .ifWord, _⟩ :: _ | ⟨.keyword .whileWord, _⟩ :: _ | ⟨.keyword .funWord, _⟩ :: _
  | ⟨.keyword .returnWord, _⟩ :: _ | ⟨.keyword .importWord, _⟩ :: _ =>
    exact absurd (h _ rfl) (by simp [Lexeme.startsStatement])

theorem viable_of_block {α : Type} {Is : List Token → α → Prop} {pre : List Token}
    {a : Block → α} (h : ∀ v block, IsBlock v block → Is (pre ++ v) (a block)) : Viable Is pre :=
  ⟨_, _, h _ _ (.mk none none .nil)⟩

mutual

theorem parseStatement_early (ts : List Token) :
    Early eof (fun ts => outcome (parseStatement eof ts)) (Viable IsStatement) ts := by
  match ts with
  | ⟨.keyword (.kind kind), l⟩ :: ts =>
    exact .cons (fun ts' => outcome_parseStatement_kind eof l ts' kind)
      (parseDeclaration_early l kind ts)
  | ⟨.keyword .printWord, l⟩ :: ts =>
    exact .cons (outcome_parseStatement_print eof l) (parsePrint_early l ts)
  | ⟨.keyword .ifWord, l⟩ :: ts =>
    have hbranch {u v w : List Token} {arm : Arm} {arms : List Arm} {otherwise : Option Block}
        (harm : IsArm l u arm) (harms : IsArms v arms) (hotherwise : IsElse w otherwise) :
        IsStatement ([⟨.keyword .ifWord, l⟩] ++ u ++ v ++ w) (.branch l (arm :: arms) otherwise) := by
      simpa using IsStatement.branch l harm harms hotherwise
    refine .cons (outcome_parseStatement_if eof l) ?_
    refine Follows.bind ⟨parseArm_early l ts, fun arm rest h => parseArm_sound h⟩ [_]
      (fun u arm harm => ?_) fun u arm rest _ harm hread => ?_
    · exact .of_append (.of_append (.of_is (hbranch harm .nil .absent)))
    have hlt := length_lt_of_outcome hread
    refine Follows.bind ⟨parseArms_early rest, fun arms rest h => parseArms_sound h⟩ _
      (fun v arms harms => ?_) fun v arms rest _ harms hread => ?_
    · exact .of_append (.of_is (hbranch harm harms .absent))
    have hlt' := length_lt_of_outcome hread
    refine Follows.bind ⟨parseElse_early rest, fun otherwise rest h => parseElse_sound h⟩ _
      (fun w otherwise hotherwise => ?_) fun w otherwise rest _ _ _ => .pure _
    exact .of_is (hbranch harm harms hotherwise)
  | ⟨.keyword .whileWord, l⟩ :: ts =>
    have hloop {u v : List Token} {condition : Expr} {body : Block}
        (hcondition : IsCondition u condition) (hbody : IsBlock v body) :
        IsStatement ([⟨.keyword .whileWord, l⟩] ++ u ++ v) (.loop l condition body) :=
      .loop l hcondition hbody
    refine .cons (outcome_parseStatement_while eof l) ?_
    refine (parseCondition_follows ts).bind [_] (fun u condition hcondition => ?_)
      fun u condition rest _ hcondition hread => ?_
    · exact viable_of_block fun v block hblock => hloop hcondition hblock
    have hlt := length_lt_of_outcome hread
    refine Follows.bind ⟨parseBlock_early rest, fun body rest h => parseBlock_sound h⟩ _
      (fun v body hbody => ?_) fun v body rest _ _ _ => .pure _
    exact .of_is (hloop hcondition hbody)
  | ⟨.keyword .funWord, l⟩ :: ts =>
    have hdefine {u v : List Token} {header : Kind × String × List Parameter} {body : Block}
        (hheader : IsHeader u header) (hbody : IsBlock v body) :
        IsStatement ([⟨.keyword .funWord, l⟩] ++ u ++ v)
          (.define l ⟨header.1, header.2.1, header.2.2, body⟩) :=
      .define l hheader hbody
    refine .cons (outcome_parseStatement_fun eof l) ?_
    refine (parseHeader_follows ts).bind [_] (fun u header hheader => ?_)
      fun u header rest _ hheader hread => ?_
    · exact viable_of_block fun v block hblock => hdefine hheader hblock
    have hlt := length_lt_of_outcome hread
    refine Follows.bind ⟨parseBlock_early rest, fun body rest h => parseBlock_sound h⟩ _
      (fun v body hbody => ?_) fun v body rest _ _ _ => .pure _
    exact .of_is (hdefine hheader hbody)
  | ⟨.keyword .returnWord, l⟩ :: ts =>
    exact .cons (outcome_parseStatement_return eof l) (parseReturn_early l ts)
  | ⟨.keyword .importWord, l⟩ :: ts =>
    exact .cons (outcome_parseStatement_import eof l) (parseImport_early l ts)
  | ⟨.identifier name, l⟩ :: ts =>
    refine .congr (fun ts' hhead => ?_) (parseSimple_early l name ts)
    obtain ⟨ts', rfl⟩ := List.head?_eq_some_iff.mp hhead
    exact outcome_parseStatement_identifier eof l ts' name
  | [] | ⟨.number .., _⟩ :: _ | ⟨.string _, _⟩ :: _ | ⟨.symbol _, _⟩ :: _
  | ⟨.keyword .elifWord, _⟩ :: _ | ⟨.keyword .elseWord, _⟩ :: _ | ⟨.keyword .xorWord, _⟩ :: _ =>
    have hviable : Viable IsStatement [] := ⟨_, _, .returnNothing none none⟩
    refine .failFront .unexpectedToken hviable rfl fun ts' hhead => ?_
    refine outcome_parseStatement_of_not_starts fun t ht => ?_
    rw [hhead] at ht
    cases ht <;> rfl
termination_by (ts.length, 0)

theorem parseArm_early (l : Option Location) (ts : List Token) :
    Early eof (fun ts => outcome (parseArm eof l ts)) (Viable (IsArm l)) ts := by
  refine .congr (fun ts' _ => outcome_parseArm eof l ts') ?_
  refine (parseCondition_follows ts).bind [] (fun u condition hcondition => ?_)
    fun u condition rest _ hcondition hread => ?_
  · exact viable_of_block fun v block hblock => .mk l hcondition hblock
  have hlt := length_lt_of_outcome hread
  refine Follows.bind ⟨parseBlock_early rest, fun body rest h => parseBlock_sound h⟩ _
    (fun v body hbody => ?_) fun v body rest _ _ _ => .pure _
  exact .of_is (IsArm.mk l hcondition hbody)
termination_by (ts.length, 1)

theorem parseArms_early (ts : List Token) :
    Early eof (fun ts => outcome (parseArms eof ts)) (Viable IsArms) ts := by
  by_cases hfront : front ts = some (.keyword .elifWord)
  · obtain ⟨l, ts, rfl⟩ := front_eq_some.mp hfront
    have harms {u v : List Token} {arm : Arm} {arms : List Arm} (harm : IsArm l u arm)
        (hmore : IsArms v arms) : IsArms ([⟨.keyword .elifWord, l⟩] ++ u ++ v) (arm :: arms) :=
      .cons l harm hmore
    refine .cons (outcome_parseArms_elif eof l) ?_
    refine Follows.bind ⟨parseArm_early l ts, fun arm rest h => parseArm_sound h⟩ [_]
      (fun u arm harm => ?_) fun u arm rest _ harm hread => ?_
    · exact .of_append (.of_is (harms harm .nil))
    have hlt := length_lt_of_outcome hread
    refine Follows.bind ⟨parseArms_early rest, fun arms rest h => parseArms_sound h⟩ _
      (fun v arms hmore => ?_) fun v arms rest _ _ _ => .pure _
    exact .of_is (harms harm hmore)
  · refine .congr (fun ts' hhead => outcome_parseArms_none eof ?_) (.pure [])
    rwa [front_eq_of_head? hhead]
termination_by (ts.length, 0)

theorem parseElse_early (ts : List Token) :
    Early eof (fun ts => outcome (parseElse eof ts)) (Viable IsElse) ts := by
  by_cases hfront : front ts = some (.keyword .elseWord)
  · obtain ⟨l, ts, rfl⟩ := front_eq_some.mp hfront
    refine .cons (outcome_parseElse_else eof l) ?_
    refine Follows.bind ⟨parseBlock_early ts, fun block rest h => parseBlock_sound h⟩ [_]
      (fun v block hblock => ?_) fun v block rest _ _ _ => .pure _
    exact .of_is (.given l hblock)
  · refine .congr (fun ts' hhead => outcome_parseElse_none eof ?_) (.pure none)
    rwa [front_eq_of_head? hhead]
termination_by (ts.length, 0)

theorem parseBlock_early (ts : List Token) :
    Early eof (fun ts => outcome (parseBlock eof ts)) (Viable IsBlock) ts := by
  refine .congr (fun ts' _ => outcome_parseBlock eof ts') ?_
  refine (expect_follows .lbrace ts).bind [] ?_ fun _ l rest _ hl hread => ?_
  · rintro _ l rfl
    exact ⟨[⟨.symbol .rbrace, none⟩], _, .mk l none .nil⟩
  obtain rfl := hl
  have hlt := length_lt_of_outcome hread
  refine Follows.bind ⟨parseStatements_early rest, fun ss rest h => parseStatements_sound h⟩ _
    (fun u ss hss => ?_) fun u ss rest _ hss _ => ?_
  · exact ⟨[⟨.symbol .rbrace, none⟩], _, .mk l none hss⟩
  refine (expect_follows .rbrace rest).bind _ ?_ fun _ _ _ _ _ _ => .pure _
  rintro _ r rfl
  exact .of_is (.mk l r hss)
termination_by (ts.length, 0)

theorem parseStatements_early (ts : List Token) :
    Early eof (fun ts => outcome (parseStatements eof ts)) (Viable IsStatements) ts := by
  by_cases hfront : front ts = none ∨ front ts = some (.symbol .rbrace)
  · refine .congr (fun ts' hhead => outcome_parseStatements_end eof ?_) (.pure [])
    rwa [front_eq_of_head? hhead]
  · refine .congr (fun ts' hhead => outcome_parseStatements eof (by rwa [front_eq_of_head? hhead])) ?_
    refine Follows.bind ⟨parseStatement_early ts, fun s rest h => parseStatement_sound h⟩ []
      (fun u s hs => ?_) fun u s rest _ hs hread => ?_
    · exact .of_append (.of_is (IsStatements.cons hs .nil))
    have hlt := length_lt_of_outcome hread
    refine Follows.bind ⟨parseStatements_early rest, fun ss rest h => parseStatements_sound h⟩ _
      (fun v ss hss => ?_) fun v ss rest _ _ _ => .pure _
    exact .of_is (IsStatements.cons hs hss)
termination_by (ts.length, 1)

end

end KLang
