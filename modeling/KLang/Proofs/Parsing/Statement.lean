import KLang.Proofs.Grammar.Statement
import KLang.Proofs.Parsing.Expression

/-!
# Statements are read by the grammar
-/

namespace KLang

variable {eof : Option Location}

/-! ## Statements without blocks -/

theorem outcome_parseDeclaration (l : Option Location) (kind : Kind) (ts : List Token) :
    outcome (parseDeclaration eof l kind ts) = (do
      let (name, rest) ← outcome (expectName eof ts)
      let (_, rest) ← outcome (expect eof .assign rest)
      let (value, rest) ← outcome (parseExpr eof .plain rest)
      let (_, rest) ← outcome (expect eof .semicolon rest)
      return (.declare l kind name value, rest)) :=
  outcome_bind fun _ => outcome_bind fun _ => outcome_bind fun _ => outcome_bind fun _ => rfl

theorem parseDeclaration_eq_ok {l : Option Location} {kind : Kind} {ts rest : List Token}
    {s : Statement} :
    outcome (parseDeclaration eof l kind ts) = .ok (s, rest) ↔
      ∃ name l₁ l₂ u e r, ts = ⟨.identifier name, l₁⟩ :: ⟨.symbol .assign, l₂⟩ ::
        (u ++ ⟨.symbol .semicolon, r⟩ :: rest) ∧ IsExpr .plain u e ∧ s = .declare l kind name e := by
  rw [outcome_parseDeclaration]
  simp only [bind_eq_ok, outcome_expectName_eq_ok, outcome_expect_eq_ok]
  constructor
  · rintro ⟨name, _, ⟨l₁, rfl⟩, l₂, _, rfl, e, _, hread, r, _, rfl, h⟩
    cases h
    obtain ⟨u, rfl, he⟩ := (outcome_parseExpr_eq_ok rfl).mp hread
    exact ⟨name, l₁, l₂, u, e, r, rfl, he, rfl⟩
  · rintro ⟨name, l₁, l₂, u, e, r, rfl, he, rfl⟩
    exact ⟨name, _, ⟨l₁, rfl⟩, l₂, _, rfl, e, _, (outcome_parseExpr_eq_ok rfl).mpr ⟨u, rfl, he⟩, r,
      _, rfl, rfl⟩

theorem parseItems_eq_ok {mode : Mode} {separator : Symbol} {ts rest : List Token}
    {es : List Expr} (hseparator : (Lexeme.symbol separator).precedence mode = .lowest)
    (hne : separator ≠ .rparen) :
    outcome (parseItems eof mode separator ts) = .ok (es, rest) ↔
      ∃ v r, ts = v ++ ⟨.symbol .rparen, r⟩ :: rest ∧ IsList separator (IsExpr mode) v es := by
  constructor
  · exact parseItems_sound
  · rintro ⟨v, r, rfl, pieces, hseparated, hpieces, rfl⟩
    exact parseItems_complete hseparator (fun p hp _ hrest => parseExpr_complete (hpieces p hp) hrest)
      (fun p hp => (hpieces p hp).begins) hne hseparated r rest

theorem outcome_parsePrint (l : Option Location) (ts : List Token) :
    outcome (parsePrint eof l ts) = (do
      let (_, rest) ← outcome (expect eof .lparen ts)
      let (items, rest) ← outcome (parseItems eof .items .add rest)
      let (_, rest) ← outcome (expect eof .semicolon rest)
      return (.print l items, rest)) :=
  outcome_bind fun _ => outcome_bind fun _ => outcome_bind fun _ => rfl

theorem parsePrint_eq_ok {l : Option Location} {ts rest : List Token} {s : Statement} :
    outcome (parsePrint eof l ts) = .ok (s, rest) ↔
      ∃ l₁ v es r r₁, ts = ⟨.symbol .lparen, l₁⟩ ::
        (v ++ ⟨.symbol .rparen, r⟩ :: ⟨.symbol .semicolon, r₁⟩ :: rest) ∧
        IsList .add (IsExpr .items) v es ∧ s = .print l es := by
  have hplus : (Lexeme.symbol .add).precedence .items = .lowest := rfl
  rw [outcome_parsePrint]
  simp only [bind_eq_ok, outcome_expect_eq_ok, parseItems_eq_ok hplus (by decide)]
  constructor
  · rintro ⟨l₁, _, rfl, es, _, ⟨v, r, rfl, hes⟩, r₁, _, rfl, h⟩
    cases h
    exact ⟨l₁, v, es, r, r₁, rfl, hes, rfl⟩
  · rintro ⟨l₁, v, es, r, r₁, rfl, hes, rfl⟩
    exact ⟨l₁, _, rfl, es, _, ⟨v, r, rfl, hes⟩, r₁, _, rfl, rfl⟩

theorem outcome_parseReturn {ts : List Token} (l : Option Location)
    (h : front ts ≠ some (.symbol .semicolon)) :
    outcome (parseReturn eof l ts) = (do
      let (value, rest) ← outcome (parseExpr eof .plain ts)
      let (_, rest) ← outcome (expect eof .semicolon rest)
      return (.returnValue l (some value), rest)) := by
  rw [parseReturn]
  · exact outcome_bind fun _ => outcome_bind fun _ => rfl
  · rintro r rest rfl
    exact h rfl

theorem parseReturn_eq_ok {l : Option Location} {ts rest : List Token} {s : Statement} :
    outcome (parseReturn eof l ts) = .ok (s, rest) ↔
      (∃ r, ts = ⟨.symbol .semicolon, r⟩ :: rest ∧ s = .returnValue l none) ∨
      ∃ u e r, ts = u ++ ⟨.symbol .semicolon, r⟩ :: rest ∧ IsExpr .plain u e ∧
        s = .returnValue l (some e) := by
  by_cases hend : front ts = some (.symbol .semicolon)
  · obtain ⟨r, ts, rfl⟩ := front_eq_some.mp hend
    constructor
    · intro h
      cases h
      exact .inl ⟨r, rfl, rfl⟩
    · rintro (⟨r, hts, rfl⟩ | ⟨u, e, r, hts, he, rfl⟩)
      · cases hts
        rfl
      · exact absurd (hts ▸ hend) (front_ne_of_begins he.begins _ (by simp [Lexeme.Begins]))
  · rw [outcome_parseReturn l hend]
    simp only [bind_eq_ok, outcome_expect_eq_ok]
    constructor
    · rintro ⟨e, _, hread, r, _, rfl, h⟩
      cases h
      obtain ⟨u, rfl, he⟩ := (outcome_parseExpr_eq_ok rfl).mp hread
      exact .inr ⟨u, e, r, rfl, he, rfl⟩
    · rintro (⟨r, rfl, rfl⟩ | ⟨u, e, r, rfl, he, rfl⟩)
      · exact absurd rfl hend
      · exact ⟨e, _, (outcome_parseExpr_eq_ok rfl).mpr ⟨u, rfl, he⟩, r, _, rfl, rfl⟩

theorem outcome_parseImport (l : Option Location) (ts : List Token) :
    outcome (parseImport eof l ts) = (do
      let (name, rest) ← outcome (expectName eof ts)
      let (_, rest) ← outcome (expect eof .semicolon rest)
      return (.importModule l name, rest)) :=
  outcome_bind fun _ => outcome_bind fun _ => rfl

theorem parseImport_eq_ok {l : Option Location} {ts rest : List Token} {s : Statement} :
    outcome (parseImport eof l ts) = .ok (s, rest) ↔
      ∃ name l₁ r, ts = ⟨.identifier name, l₁⟩ :: ⟨.symbol .semicolon, r⟩ :: rest ∧
        s = .importModule l name := by
  rw [outcome_parseImport]
  simp only [bind_eq_ok, outcome_expectName_eq_ok, outcome_expect_eq_ok]
  constructor
  · rintro ⟨name, _, ⟨l₁, rfl⟩, r, _, rfl, h⟩
    cases h
    exact ⟨name, l₁, r, rfl, rfl⟩
  · rintro ⟨name, l₁, r, rfl, rfl⟩
    exact ⟨name, _, ⟨l₁, rfl⟩, r, _, rfl, rfl⟩

theorem outcome_parseAssigned (l l' : Option Location) (name : Name) (ts : List Token) :
    outcome (parseAssigned eof l (.variable l' name) ts) = (do
      let (_, rest) ← outcome (expect eof .assign ts)
      let (value, rest) ← outcome (parseExpr eof .plain rest)
      let (_, rest) ← outcome (expect eof .semicolon rest)
      return (.assign l l' name value, rest)) :=
  outcome_bind fun _ => outcome_bind fun _ => outcome_bind fun _ => rfl

theorem parseAssigned_eq_ok {l : Option Location} {target : Expr} {ts rest : List Token}
    {s : Statement} :
    outcome (parseAssigned eof l target ts) = .ok (s, rest) ↔
      ∃ l' name l₁ v e r, target = .variable l' name ∧
        ts = ⟨.symbol .assign, l₁⟩ :: (v ++ ⟨.symbol .semicolon, r⟩ :: rest) ∧
        IsExpr .plain v e ∧ s = .assign l l' name e := by
  by_cases htarget : ∃ l' name, target = .variable l' name
  · obtain ⟨l', name, rfl⟩ := htarget
    rw [outcome_parseAssigned]
    simp only [bind_eq_ok, outcome_expect_eq_ok]
    constructor
    · rintro ⟨l₁, _, rfl, e, _, hread, r, _, rfl, h⟩
      cases h
      obtain ⟨v, rfl, he⟩ := (outcome_parseExpr_eq_ok rfl).mp hread
      exact ⟨l', name, l₁, v, e, r, rfl, rfl, he, rfl⟩
    · rintro ⟨_, _, l₁, v, e, r, htarget, rfl, he, rfl⟩
      cases htarget
      exact ⟨l₁, _, rfl, e, _, (outcome_parseExpr_eq_ok rfl).mpr ⟨v, rfl, he⟩, r, _, rfl, rfl⟩
  · constructor
    · intro h
      rw [parseAssigned] at h
      · simp [failFront] at h
      · rintro l' name rfl
        exact htarget ⟨l', name, rfl⟩
    · rintro ⟨l', name, _, _, _, _, rfl, _⟩
      exact absurd ⟨l', name, rfl⟩ htarget

theorem outcome_parseSimple (l : Option Location) (ts : List Token) :
    outcome (parseSimple eof l ts) = (do
      let (e, rest) ← outcome (parseExpr eof .plain ts)
      if front rest = some (.symbol .assign) then outcome (parseAssigned eof l e rest)
      else do
        let (_, rest) ← outcome (expect eof .semicolon rest)
        return (.evaluate l e, rest)) := by
  refine outcome_bind fun p => ?_
  dsimp only
  split
  · exact outcome_bind_weaken _ _
  · exact outcome_bind fun _ => rfl

theorem parseSimple_eq_ok {l : Option Location} {ts rest : List Token} {s : Statement} :
    outcome (parseSimple eof l ts) = .ok (s, rest) ↔
      (∃ u e r, ts = u ++ ⟨.symbol .semicolon, r⟩ :: rest ∧ IsExpr .plain u e ∧
        s = .evaluate l e) ∨
      ∃ u l' target l₁ v e r, ts = u ++ ⟨.symbol .assign, l₁⟩ ::
        (v ++ ⟨.symbol .semicolon, r⟩ :: rest) ∧ IsExpr .plain u (.variable l' target) ∧
        IsExpr .plain v e ∧ s = .assign l l' target e := by
  rw [outcome_parseSimple]
  simp only [bind_eq_ok]
  constructor
  · rintro ⟨e, rest', hread, h⟩
    split at h
    · obtain ⟨l', target, l₁, v, e', r, rfl, rfl, he', rfl⟩ := parseAssigned_eq_ok.mp h
      obtain ⟨u, rfl, he⟩ := (outcome_parseExpr_eq_ok rfl).mp hread
      exact .inr ⟨u, l', target, l₁, v, e', r, rfl, he, he', rfl⟩
    · obtain ⟨r, _, hr, h⟩ := bind_eq_ok.mp h
      cases h
      rw [outcome_expect_eq_ok] at hr
      subst hr
      obtain ⟨u, rfl, he⟩ := (outcome_parseExpr_eq_ok rfl).mp hread
      exact .inl ⟨u, e, r, rfl, he, rfl⟩
  · rintro (⟨u, e, r, rfl, he, rfl⟩ | ⟨u, l', target, l₁, v, e, r, rfl, he, he', rfl⟩)
    · refine ⟨e, _, (outcome_parseExpr_eq_ok rfl).mpr ⟨u, rfl, he⟩, ?_⟩
      rw [if_neg (by simp [front]), (outcome_expect_eq_ok eof).mpr rfl]
      rfl
    · refine ⟨.variable l' target, _, (outcome_parseExpr_eq_ok rfl).mpr ⟨u, rfl, he⟩, ?_⟩
      exact (if_pos rfl).trans
        (parseAssigned_eq_ok.mpr ⟨l', target, l₁, v, e, r, rfl, rfl, he', rfl⟩)

/-! ## Parameters and conditions -/

theorem outcome_parseParameter (seen : List String) (ts : List Token) :
    outcome (parseParameter eof seen ts) = (do
      let (kind, rest) ← outcome (expectKind eof ts)
      let (name, rest) ← outcome (expectName eof rest)
      if name ∈ seen then .error ⟨.duplicateParameter name, frontLocation eof ts, rest⟩
      else .ok (⟨frontLocation eof ts, kind, name⟩, rest)) := by
  refine outcome_bind fun p => outcome_bind fun q => ?_
  dsimp only
  split <;> rfl

theorem parseParameter_eq_ok {seen : List String} {ts rest : List Token} {p : Parameter} :
    outcome (parseParameter eof seen ts) = .ok (p, rest) ↔
      ∃ u, ts = u ++ rest ∧ IsParameter u p ∧ p.name ∉ seen := by
  rw [outcome_parseParameter]
  simp only [bind_eq_ok, outcome_expectKind_eq_ok, outcome_expectName_eq_ok]
  constructor
  · rintro ⟨kind, _, ⟨l, rfl⟩, name, _, ⟨l', rfl⟩, h⟩
    split at h
    · cases h
    · rename_i hseen
      cases h
      exact ⟨_, rfl, .mk l l' kind name, hseen⟩
  · rintro ⟨_, rfl, ⟨l, l', kind, name⟩, hseen⟩
    exact ⟨kind, _, ⟨l, rfl⟩, name, _, ⟨l', rfl⟩, if_neg hseen⟩

theorem parseMoreParameters_rparen (seen : List String) (r : Option Location) (ts : List Token) :
    outcome (parseMoreParameters eof seen (⟨.symbol .rparen, r⟩ :: ts)) = .ok ([], ts) := by
  rw [parseMoreParameters]
  rfl

theorem outcome_parseMoreParameters {seen : List String} {ts : List Token}
    (h : front ts ≠ some (.symbol .rparen)) :
    outcome (parseMoreParameters eof seen ts) = (do
      let (_, rest) ← outcome (expect eof .comma ts)
      let (p, rest) ← outcome (parseParameter eof seen rest)
      let (ps, rest) ← outcome (parseMoreParameters eof (p.name :: seen) rest)
      return (p :: ps, rest)) := by
  rw [parseMoreParameters]
  · exact outcome_bind fun _ => outcome_bind fun _ => outcome_bind fun _ => rfl
  · rintro r rest rfl
    exact h rfl

theorem parseMoreParameters_sound {seen : List String} {ts rest : List Token} {ps : List Parameter}
    (h : outcome (parseMoreParameters eof seen ts) = .ok (ps, rest)) :
    ∃ v r, ts = v ++ ⟨.symbol .rparen, r⟩ :: rest ∧
      (∃ pieces : List (List Token × Parameter), Behind .comma (pieces.map Prod.fst) v ∧
        (∀ p ∈ pieces, IsParameter p.1 p.2) ∧ ps = pieces.map Prod.snd) ∧
      (ps.map Parameter.name).Nodup ∧ ∀ p ∈ ps, p.name ∉ seen := by
  by_cases hend : front ts = some (.symbol .rparen)
  · obtain ⟨r, ts, rfl⟩ := front_eq_some.mp hend
    rw [parseMoreParameters_rparen] at h
    cases h
    exact ⟨[], r, rfl, ⟨[], .nil, by simp, rfl⟩, .nil, by simp⟩
  · rw [outcome_parseMoreParameters hend] at h
    obtain ⟨l, rest₁, hl, h⟩ := bind_eq_ok.mp h
    obtain ⟨p, rest₂, hp, h⟩ := bind_eq_ok.mp h
    obtain ⟨ps, rest₃, hps, h⟩ := bind_eq_ok.mp h
    cases h
    have hlt := length_lt_of_outcome hl
    have hlt' := length_lt_of_outcome hp
    rw [outcome_expect_eq_ok] at hl
    subst hl
    obtain ⟨u, rfl, hu, hseen⟩ := parseParameter_eq_ok.mp hp
    obtain ⟨v, r, rfl, ⟨pieces, hbehind, hpieces, rfl⟩, hnodup, hfresh⟩ :=
      parseMoreParameters_sound hps
    simp only [List.mem_cons, not_or] at hfresh
    refine ⟨⟨.symbol .comma, l⟩ :: (u ++ v), r, by simp, ⟨(u, p) :: pieces, .cons l hbehind,
      List.forall_mem_cons.mpr ⟨hu, hpieces⟩, rfl⟩, ?_, ?_⟩
    · rw [List.map_cons, List.nodup_cons]
      refine ⟨fun hmem => ?_, hnodup⟩
      obtain ⟨q, hq, heq⟩ := List.mem_map.mp hmem
      exact (hfresh q hq).1 heq
    · exact List.forall_mem_cons.mpr ⟨hseen, fun q hq => (hfresh q hq).2⟩
termination_by ts.length

theorem parseMoreParameters_complete {pieces : List (List Token × Parameter)} :
    ∀ {seen : List String} {v : List Token}, Behind .comma (pieces.map Prod.fst) v →
      (∀ p ∈ pieces, IsParameter p.1 p.2) → ((pieces.map Prod.snd).map Parameter.name).Nodup →
      (∀ p ∈ pieces, p.2.name ∉ seen) → ∀ (r : Option Location) (rest : List Token),
      outcome (parseMoreParameters eof seen (v ++ ⟨.symbol .rparen, r⟩ :: rest)) =
        .ok (pieces.map Prod.snd, rest) := by
  induction pieces with
  | nil =>
    intro seen v hbehind _ _ _ r rest
    cases hbehind
    exact parseMoreParameters_rparen ..
  | cons p pieces ih =>
    intro seen v hbehind hpieces hnodup hfresh r rest
    obtain ⟨hp, hpieces⟩ := List.forall_mem_cons.mp hpieces
    obtain ⟨hseen, hfresh⟩ := List.forall_mem_cons.mp hfresh
    rw [List.map_cons, List.map_cons, List.nodup_cons] at hnodup
    cases hbehind with
    | @cons _ _ w l more =>
      have hfresh' : ∀ q ∈ pieces, q.2.name ∉ p.2.name :: seen := by
        intro q hq hmem
        rcases List.mem_cons.mp hmem with heq | hmem
        · exact hnodup.1 (heq ▸ List.mem_map_of_mem (List.mem_map_of_mem hq))
        · exact hfresh q hq hmem
      have hmore := ih more hpieces hnodup.2 hfresh' r rest
      have hparameter : outcome (parseParameter eof seen
          (p.1 ++ (w ++ ⟨.symbol .rparen, r⟩ :: rest))) = .ok (p.2, _) :=
        parseParameter_eq_ok.mpr ⟨p.1, rfl, hp, hseen⟩
      rw [List.cons_append, outcome_parseMoreParameters (by simp [front]),
        (outcome_expect_eq_ok eof).mpr rfl, List.append_assoc]
      simp only [ok_bind, hparameter, hmore]
      rfl

theorem outcome_parseParameters {ts : List Token} (h : front ts ≠ some (.symbol .rparen)) :
    outcome (parseParameters eof ts) = (do
      let (p, rest) ← outcome (parseParameter eof [] ts)
      let (ps, rest) ← outcome (parseMoreParameters eof [p.name] rest)
      return (p :: ps, rest)) := by
  rw [parseParameters]
  · exact outcome_bind fun _ => outcome_bind fun _ => rfl
  · rintro r rest rfl
    exact h rfl

theorem parseParameters_eq_ok {ts rest : List Token} {ps : List Parameter} :
    outcome (parseParameters eof ts) = .ok (ps, rest) ↔
      ∃ v r, ts = v ++ ⟨.symbol .rparen, r⟩ :: rest ∧ IsParameters v ps := by
  by_cases hend : front ts = some (.symbol .rparen)
  · obtain ⟨r, ts, rfl⟩ := front_eq_some.mp hend
    constructor
    · intro h
      cases h
      exact ⟨[], r, rfl, ⟨[], .nil, by simp, rfl⟩, .nil⟩
    · rintro ⟨v, r, hts, ⟨pieces, hseparated, hpieces, rfl⟩, -⟩
      match pieces, hseparated with
      | [], .nil =>
        cases hts
        rfl
      | p :: pieces, .cons more =>
        cases p with
        | mk u p =>
          cases hpieces _ List.mem_cons_self
          cases hts
  · rw [outcome_parseParameters hend]
    simp only [bind_eq_ok, parseParameter_eq_ok]
    constructor
    · rintro ⟨p, _, ⟨u, rfl, hu, -⟩, ps, _, hps, h⟩
      cases h
      obtain ⟨v, r, rfl, ⟨pieces, hbehind, hpieces, rfl⟩, hnodup, hfresh⟩ :=
        parseMoreParameters_sound hps
      simp only [List.mem_singleton] at hfresh
      refine ⟨u ++ v, r, by simp, ⟨(u, p) :: pieces, .cons hbehind,
        List.forall_mem_cons.mpr ⟨hu, hpieces⟩, rfl⟩, ?_⟩
      rw [List.map_cons, List.nodup_cons]
      refine ⟨fun hmem => ?_, hnodup⟩
      obtain ⟨q, hq, heq⟩ := List.mem_map.mp hmem
      exact hfresh q hq heq
    · rintro ⟨v, r, rfl, ⟨pieces, hseparated, hpieces, rfl⟩, hnodup⟩
      match pieces, hseparated with
      | [], .nil => exact absurd rfl hend
      | p :: pieces, .cons more =>
        obtain ⟨hp, hpieces⟩ := List.forall_mem_cons.mp hpieces
        rw [List.map_cons, List.map_cons, List.nodup_cons] at hnodup
        refine ⟨p.2, _, ⟨p.1, List.append_assoc .., hp, by simp⟩, pieces.map Prod.snd, rest, ?_, rfl⟩
        refine parseMoreParameters_complete more hpieces hnodup.2 ?_ r rest
        intro q hq hmem
        rw [List.mem_singleton] at hmem
        exact hnodup.1 (hmem ▸ List.mem_map_of_mem (List.mem_map_of_mem hq))

theorem outcome_parseCondition (ts : List Token) :
    outcome (parseCondition eof ts) = (do
      let (_, rest) ← outcome (expect eof .lparen ts)
      let (e, rest) ← outcome (parseExpr eof .plain rest)
      let (_, rest) ← outcome (expect eof .rparen rest)
      return (e, rest)) :=
  outcome_bind fun _ => outcome_bind fun _ => outcome_bind fun _ => rfl

theorem parseCondition_eq_ok {ts rest : List Token} {e : Expr} :
    outcome (parseCondition eof ts) = .ok (e, rest) ↔ ∃ u, ts = u ++ rest ∧ IsCondition u e := by
  rw [outcome_parseCondition]
  simp only [bind_eq_ok, outcome_expect_eq_ok]
  constructor
  · rintro ⟨l, _, rfl, e, _, hread, r, _, rfl, h⟩
    cases h
    obtain ⟨u, rfl, he⟩ := (outcome_parseExpr_eq_ok rfl).mp hread
    exact ⟨_, by simp, .mk l r he⟩
  · rintro ⟨_, rfl, @⟨u, e, l, r, he⟩⟩
    exact ⟨l, _, by simp, e, _, (outcome_parseExpr_eq_ok rfl).mpr ⟨u, rfl, he⟩, r, _, rfl, rfl⟩

/-- The header of a function behind its kind. -/
def headerBehind (eof : Option Location) (kind : Kind) (ts : List Token) :
    Except ParseError ((Kind × String × List Parameter) × List Token) := do
  let (name, rest) ← outcome (expectName eof ts)
  let (_, rest) ← outcome (expect eof .lparen rest)
  let (parameters, rest) ← outcome (parseParameters eof rest)
  return ((kind, name, parameters), rest)

theorem outcome_parseHeader_given (l : Option Location) (kind : Kind) (ts : List Token) :
    outcome (parseHeader eof (⟨.keyword (.kind kind), l⟩ :: ts)) = headerBehind eof kind ts :=
  outcome_bind fun _ => outcome_bind fun _ => outcome_bind fun _ => rfl

theorem outcome_parseHeader_absent {ts : List Token}
    (h : ∀ kind, front ts ≠ some (.keyword (.kind kind))) :
    outcome (parseHeader eof ts) = headerBehind eof .var ts := by
  unfold parseHeader
  split
  rename_i kind rest hlt heq
  split at heq
  · exact absurd rfl (h _)
  · cases heq
    exact outcome_bind fun _ => outcome_bind fun _ => outcome_bind fun _ => rfl

theorem headerBehind_eq_ok {kind : Kind} {ts rest : List Token}
    {header : Kind × String × List Parameter} :
    headerBehind eof kind ts = .ok (header, rest) ↔
      ∃ name l l' v parameters r, ts = ⟨.identifier name, l⟩ :: ⟨.symbol .lparen, l'⟩ ::
        (v ++ ⟨.symbol .rparen, r⟩ :: rest) ∧ IsParameters v parameters ∧
        header = (kind, name, parameters) := by
  simp only [headerBehind, bind_eq_ok, outcome_expectName_eq_ok, outcome_expect_eq_ok,
    parseParameters_eq_ok]
  constructor
  · rintro ⟨name, _, ⟨l, rfl⟩, l', _, rfl, parameters, _, ⟨v, r, rfl, hv⟩, h⟩
    cases h
    exact ⟨name, l, l', v, parameters, r, rfl, hv, rfl⟩
  · rintro ⟨name, l, l', v, parameters, r, rfl, hv, rfl⟩
    exact ⟨name, _, ⟨l, rfl⟩, l', _, rfl, parameters, _, ⟨v, r, rfl, hv⟩, rfl⟩

theorem parseHeader_eq_ok {ts rest : List Token} {header : Kind × String × List Parameter} :
    outcome (parseHeader eof ts) = .ok (header, rest) ↔
      ∃ u, ts = u ++ rest ∧ IsHeader u header := by
  by_cases hkind : ∃ kind, front ts = some (.keyword (.kind kind))
  · obtain ⟨kind, hkind⟩ := hkind
    obtain ⟨l, ts, rfl⟩ := front_eq_some.mp hkind
    rw [outcome_parseHeader_given, headerBehind_eq_ok]
    constructor
    · rintro ⟨name, l₁, l', v, parameters, r, rfl, hv, rfl⟩
      exact ⟨_, by simp, .mk l₁ l' r name (.given l kind) hv⟩
    · rintro ⟨_, hts, ⟨l₁, l', r, name, habsent | ⟨l, kind⟩, hv⟩⟩
      · cases hts
      · cases hts
        exact ⟨name, l₁, l', _, _, r, by simp, hv, rfl⟩
  · rw [outcome_parseHeader_absent (fun kind h => hkind ⟨kind, h⟩), headerBehind_eq_ok]
    constructor
    · rintro ⟨name, l₁, l', v, parameters, r, rfl, hv, rfl⟩
      exact ⟨_, by simp, .mk l₁ l' r name .absent hv⟩
    · rintro ⟨_, rfl, ⟨l₁, l', r, name, habsent | ⟨l, kind⟩, hv⟩⟩
      · exact ⟨name, l₁, l', _, _, r, by simp, hv, rfl⟩
      · exact absurd ⟨_, rfl⟩ hkind

/-! ## Statements with blocks -/

section outcome

variable (eof) (l : Option Location) (ts : List Token)

theorem outcome_parseStatement_kind (kind : Kind) :
    outcome (parseStatement eof (⟨.keyword (.kind kind), l⟩ :: ts)) =
      outcome (parseDeclaration eof l kind ts) := by
  rw [parseStatement]
  exact outcome_bind_weaken _ _

theorem outcome_parseStatement_print :
    outcome (parseStatement eof (⟨.keyword .printWord, l⟩ :: ts)) =
      outcome (parsePrint eof l ts) := by
  rw [parseStatement]
  exact outcome_bind_weaken _ _

theorem outcome_parseStatement_if :
    outcome (parseStatement eof (⟨.keyword .ifWord, l⟩ :: ts)) = (do
      let (arm, rest) ← outcome (parseArm eof l ts)
      let (arms, rest) ← outcome (parseArms eof rest)
      let (otherwise, rest) ← outcome (parseElse eof rest)
      return (.branch l (arm :: arms) otherwise, rest)) := by
  rw [parseStatement]
  exact outcome_bind fun _ => outcome_bind fun _ => outcome_bind fun _ => rfl

theorem outcome_parseStatement_while :
    outcome (parseStatement eof (⟨.keyword .whileWord, l⟩ :: ts)) = (do
      let (condition, rest) ← outcome (parseCondition eof ts)
      let (body, rest) ← outcome (parseBlock eof rest)
      return (.loop l condition body, rest)) := by
  rw [parseStatement]
  exact outcome_bind fun _ => outcome_bind fun _ => rfl

theorem outcome_parseStatement_fun :
    outcome (parseStatement eof (⟨.keyword .funWord, l⟩ :: ts)) = (do
      let ((kind, name, parameters), rest) ← outcome (parseHeader eof ts)
      let (body, rest) ← outcome (parseBlock eof rest)
      return (.define l ⟨kind, name, parameters, body⟩, rest)) := by
  rw [parseStatement]
  refine outcome_bind fun p => ?_
  obtain ⟨⟨kind, name, parameters⟩, rest, hlt⟩ := p
  exact outcome_bind fun _ => rfl

theorem outcome_parseStatement_return :
    outcome (parseStatement eof (⟨.keyword .returnWord, l⟩ :: ts)) =
      outcome (parseReturn eof l ts) := by
  rw [parseStatement]
  exact outcome_bind_weaken _ _

theorem outcome_parseStatement_import :
    outcome (parseStatement eof (⟨.keyword .importWord, l⟩ :: ts)) =
      outcome (parseImport eof l ts) := by
  rw [parseStatement]
  exact outcome_bind_weaken _ _

theorem outcome_parseStatement_identifier (name : String) :
    outcome (parseStatement eof (⟨.identifier name, l⟩ :: ts)) =
      outcome (parseSimple eof l (⟨.identifier name, l⟩ :: ts)) := by
  rw [parseStatement]

theorem outcome_parseArm :
    outcome (parseArm eof l ts) = (do
      let (condition, rest) ← outcome (parseCondition eof ts)
      let (body, rest) ← outcome (parseBlock eof rest)
      return (⟨l, condition, body⟩, rest)) := by
  rw [parseArm]
  exact outcome_bind fun _ => outcome_bind fun _ => rfl

theorem outcome_parseArms_elif :
    outcome (parseArms eof (⟨.keyword .elifWord, l⟩ :: ts)) = (do
      let (arm, rest) ← outcome (parseArm eof l ts)
      let (arms, rest) ← outcome (parseArms eof rest)
      return (arm :: arms, rest)) := by
  rw [parseArms]
  exact outcome_bind fun _ => outcome_bind fun _ => rfl

theorem outcome_parseArms_none {ts : List Token} (h : front ts ≠ some (.keyword .elifWord)) :
    outcome (parseArms eof ts) = .ok ([], ts) := by
  rw [parseArms]
  · rfl
  · rintro l rest rfl
    exact h rfl

theorem outcome_parseElse_else :
    outcome (parseElse eof (⟨.keyword .elseWord, l⟩ :: ts)) = (do
      let (block, rest) ← outcome (parseBlock eof ts)
      return (some block, rest)) := by
  rw [parseElse]
  exact outcome_bind fun _ => rfl

theorem outcome_parseElse_none {ts : List Token} (h : front ts ≠ some (.keyword .elseWord)) :
    outcome (parseElse eof ts) = .ok (none, ts) := by
  rw [parseElse]
  · rfl
  · rintro l rest rfl
    exact h rfl

theorem outcome_parseBlock :
    outcome (parseBlock eof ts) = (do
      let (l, rest) ← outcome (expect eof .lbrace ts)
      let (ss, rest) ← outcome (parseStatements eof rest)
      let (_, rest) ← outcome (expect eof .rbrace rest)
      return (⟨l, ss⟩, rest)) := by
  rw [parseBlock]
  exact outcome_bind fun _ => outcome_bind fun _ => outcome_bind fun _ => rfl

theorem outcome_parseStatements_end {ts : List Token}
    (h : front ts = none ∨ front ts = some (.symbol .rbrace)) :
    outcome (parseStatements eof ts) = .ok ([], ts) := by
  rw [parseStatements, if_pos h]
  rfl

theorem outcome_parseStatements {ts : List Token}
    (h : ¬ (front ts = none ∨ front ts = some (.symbol .rbrace))) :
    outcome (parseStatements eof ts) = (do
      let (s, rest) ← outcome (parseStatement eof ts)
      let (ss, rest) ← outcome (parseStatements eof rest)
      return (s :: ss, rest)) := by
  rw [parseStatements, if_neg h]
  exact outcome_bind fun _ => outcome_bind fun _ => rfl

end outcome

theorem eq_cons_of_isExpr {mode : Mode} {t : Token} {ts u rest : List Token} {e : Expr}
    (he : IsExpr mode u e) (h : t :: ts = u ++ rest) : ∃ v, u = t :: v := by
  obtain ⟨t', v, rfl, -⟩ := he.begins
  cases h
  exact ⟨v, rfl⟩

/-! ### Soundness -/

mutual

/-- What is read as a statement is one. -/
theorem parseStatement_sound {ts rest : List Token} {s : Statement}
    (h : outcome (parseStatement eof ts) = .ok (s, rest)) :
    ∃ u, ts = u ++ rest ∧ IsStatement u s := by
  match ts with
  | ⟨.keyword (.kind kind), l⟩ :: ts =>
    rw [outcome_parseStatement_kind, parseDeclaration_eq_ok] at h
    obtain ⟨name, l₁, l₂, u, e, r, rfl, he, rfl⟩ := h
    exact ⟨_, by simp, .declare l l₁ l₂ r kind name he⟩
  | ⟨.keyword .printWord, l⟩ :: ts =>
    rw [outcome_parseStatement_print, parsePrint_eq_ok] at h
    obtain ⟨l₁, v, es, r, r₁, rfl, hes, rfl⟩ := h
    exact ⟨_, by simp, .print l l₁ r r₁ hes⟩
  | ⟨.keyword .ifWord, l⟩ :: ts =>
    rw [outcome_parseStatement_if] at h
    obtain ⟨arm, rest₁, harm, h⟩ := bind_eq_ok.mp h
    obtain ⟨arms, rest₂, harms, h⟩ := bind_eq_ok.mp h
    obtain ⟨otherwise, rest₃, hotherwise, h⟩ := bind_eq_ok.mp h
    cases h
    have hlt₁ := length_lt_of_outcome harm
    have hlt₂ := length_lt_of_outcome harms
    obtain ⟨u, rfl, hu⟩ := parseArm_sound harm
    obtain ⟨v, rfl, hv⟩ := parseArms_sound harms
    obtain ⟨w, rfl, hw⟩ := parseElse_sound hotherwise
    exact ⟨_, by simp, .branch l hu hv hw⟩
  | ⟨.keyword .whileWord, l⟩ :: ts =>
    rw [outcome_parseStatement_while] at h
    obtain ⟨condition, rest₁, hcondition, h⟩ := bind_eq_ok.mp h
    obtain ⟨body, rest₂, hbody, h⟩ := bind_eq_ok.mp h
    cases h
    have hlt := length_lt_of_outcome hcondition
    obtain ⟨u, rfl, hu⟩ := parseCondition_eq_ok.mp hcondition
    obtain ⟨v, rfl, hv⟩ := parseBlock_sound hbody
    exact ⟨_, by simp, .loop l hu hv⟩
  | ⟨.keyword .funWord, l⟩ :: ts =>
    rw [outcome_parseStatement_fun] at h
    obtain ⟨⟨kind, name, parameters⟩, rest₁, hheader, h⟩ := bind_eq_ok.mp h
    obtain ⟨body, rest₂, hbody, h⟩ := bind_eq_ok.mp h
    cases h
    have hlt := length_lt_of_outcome hheader
    obtain ⟨u, rfl, hu⟩ := parseHeader_eq_ok.mp hheader
    obtain ⟨v, rfl, hv⟩ := parseBlock_sound hbody
    exact ⟨_, by simp, .define l hu hv⟩
  | ⟨.keyword .returnWord, l⟩ :: ts =>
    rw [outcome_parseStatement_return, parseReturn_eq_ok] at h
    obtain ⟨r, rfl, rfl⟩ | ⟨u, e, r, rfl, he, rfl⟩ := h
    · exact ⟨_, by simp, .returnNothing l r⟩
    · exact ⟨_, by simp, .returnValue l r he⟩
  | ⟨.keyword .importWord, l⟩ :: ts =>
    rw [outcome_parseStatement_import, parseImport_eq_ok] at h
    obtain ⟨name, l₁, r, rfl, rfl⟩ := h
    exact ⟨_, by simp, .importModule l l₁ r name⟩
  | ⟨.identifier name, l⟩ :: ts =>
    rw [outcome_parseStatement_identifier, parseSimple_eq_ok] at h
    obtain ⟨u, e, r, hts, he, rfl⟩ | ⟨u, l', target, l₁, v, e, r, hts, he, he', rfl⟩ := h
    · obtain ⟨u, rfl⟩ := eq_cons_of_isExpr he hts
      cases hts
      exact ⟨_, by simp, .evaluate l r name he⟩
    · obtain ⟨u, rfl⟩ := eq_cons_of_isExpr he hts
      cases hts
      exact ⟨_, by simp, .assign l l₁ r name he he'⟩
  | [] | ⟨.number .., _⟩ :: _ | ⟨.string _, _⟩ :: _ | ⟨.symbol _, _⟩ :: _
  | ⟨.keyword .elifWord, _⟩ :: _ | ⟨.keyword .elseWord, _⟩ :: _ | ⟨.keyword .xorWord, _⟩ :: _ =>
    simp [parseStatement, failFront] at h
termination_by (ts.length, 0)

theorem parseArm_sound {l : Option Location} {ts rest : List Token} {arm : Arm}
    (h : outcome (parseArm eof l ts) = .ok (arm, rest)) : ∃ u, ts = u ++ rest ∧ IsArm l u arm := by
  rw [outcome_parseArm] at h
  obtain ⟨condition, rest₁, hcondition, h⟩ := bind_eq_ok.mp h
  obtain ⟨body, rest₂, hbody, h⟩ := bind_eq_ok.mp h
  cases h
  have hlt := length_lt_of_outcome hcondition
  obtain ⟨u, rfl, hu⟩ := parseCondition_eq_ok.mp hcondition
  obtain ⟨v, rfl, hv⟩ := parseBlock_sound hbody
  exact ⟨u ++ v, by simp, .mk l hu hv⟩
termination_by (ts.length, 1)

theorem parseArms_sound {ts rest : List Token} {arms : List Arm}
    (h : outcome (parseArms eof ts) = .ok (arms, rest)) : ∃ u, ts = u ++ rest ∧ IsArms u arms := by
  by_cases hfront : front ts = some (.keyword .elifWord)
  · obtain ⟨l, ts, rfl⟩ := front_eq_some.mp hfront
    rw [outcome_parseArms_elif] at h
    obtain ⟨arm, rest₁, harm, h⟩ := bind_eq_ok.mp h
    obtain ⟨arms, rest₂, harms, h⟩ := bind_eq_ok.mp h
    cases h
    have hlt := length_lt_of_outcome harm
    obtain ⟨u, rfl, hu⟩ := parseArm_sound harm
    obtain ⟨v, rfl, hv⟩ := parseArms_sound harms
    exact ⟨_, by simp, .cons l hu hv⟩
  · rw [outcome_parseArms_none eof hfront] at h
    cases h
    exact ⟨[], rfl, .nil⟩
termination_by (ts.length, 0)

theorem parseElse_sound {ts rest : List Token} {otherwise : Option Block}
    (h : outcome (parseElse eof ts) = .ok (otherwise, rest)) :
    ∃ u, ts = u ++ rest ∧ IsElse u otherwise := by
  by_cases hfront : front ts = some (.keyword .elseWord)
  · obtain ⟨l, ts, rfl⟩ := front_eq_some.mp hfront
    rw [outcome_parseElse_else] at h
    obtain ⟨block, rest₁, hblock, h⟩ := bind_eq_ok.mp h
    cases h
    obtain ⟨u, rfl, hu⟩ := parseBlock_sound hblock
    exact ⟨_, by simp, .given l hu⟩
  · rw [outcome_parseElse_none eof hfront] at h
    cases h
    exact ⟨[], rfl, .absent⟩
termination_by (ts.length, 0)

theorem parseBlock_sound {ts rest : List Token} {block : Block}
    (h : outcome (parseBlock eof ts) = .ok (block, rest)) :
    ∃ u, ts = u ++ rest ∧ IsBlock u block := by
  rw [outcome_parseBlock] at h
  obtain ⟨l, rest₁, hl, h⟩ := bind_eq_ok.mp h
  obtain ⟨ss, rest₂, hss, h⟩ := bind_eq_ok.mp h
  obtain ⟨r, rest₃, hr, h⟩ := bind_eq_ok.mp h
  cases h
  have hlt := length_lt_of_outcome hl
  obtain ⟨u, rfl, hu⟩ := parseStatements_sound hss
  rw [outcome_expect_eq_ok] at hl hr
  subst hr hl
  exact ⟨_, by simp, .mk l r hu⟩
termination_by (ts.length, 0)

theorem parseStatements_sound {ts rest : List Token} {ss : List Statement}
    (h : outcome (parseStatements eof ts) = .ok (ss, rest)) :
    ∃ u, ts = u ++ rest ∧ IsStatements u ss := by
  by_cases hfront : front ts = none ∨ front ts = some (.symbol .rbrace)
  · rw [outcome_parseStatements_end eof hfront] at h
    cases h
    exact ⟨[], rfl, .nil⟩
  · rw [outcome_parseStatements eof hfront] at h
    obtain ⟨s, rest₁, hs, h⟩ := bind_eq_ok.mp h
    obtain ⟨ss, rest₂, hss, h⟩ := bind_eq_ok.mp h
    cases h
    have hlt := length_lt_of_outcome hs
    obtain ⟨u, rfl, hu⟩ := parseStatement_sound hs
    obtain ⟨v, rfl, hv⟩ := parseStatements_sound hss
    exact ⟨u ++ v, by simp, .cons hu hv⟩
termination_by (ts.length, 1)

end

/-! ### Completeness -/

/-- Tokens that do not go on with an `if` statement in front of them. -/
def Closes (rest : List Token) : Prop :=
  front rest ≠ some (.keyword .elifWord) ∧ front rest ≠ some (.keyword .elseWord)

theorem IsStatement.front_append {u : List Token} {s : Statement} (h : IsStatement u s)
    (rest : List Token) :
    ¬ (front (u ++ rest) = none ∨ front (u ++ rest) = some (.symbol .rbrace)) ∧
      Closes (u ++ rest) := by
  cases h <;> simp [front, Closes]

theorem IsStatements.closes_append {u : List Token} {ss : List Statement} (h : IsStatements u ss)
    {rest : List Token} (hrest : Closes rest) : Closes (u ++ rest) := by
  cases h with
  | nil => exact hrest
  | cons h _ =>
    rw [List.append_assoc]
    exact (h.front_append _).2

theorem IsArms.front_append {v : List Token} {arms : List Arm} (h : IsArms v arms)
    {rest : List Token} (hrest : front rest ≠ some (.keyword .elseWord)) :
    front (v ++ rest) ≠ some (.keyword .elseWord) := by
  cases h with
  | nil => exact hrest
  | cons => simp [front]

theorem IsElse.front_append {w : List Token} {otherwise : Option Block} (h : IsElse w otherwise)
    {rest : List Token} (hrest : front rest ≠ some (.keyword .elifWord)) :
    front (w ++ rest) ≠ some (.keyword .elifWord) := by
  cases h with
  | absent => exact hrest
  | given => simp [front]

mutual

/-- A statement is read to its end, unless the word behind it goes on with it. -/
theorem parseStatement_complete {u : List Token} {s : Statement} (h : IsStatement u s)
    {rest : List Token} (hrest : Closes rest) :
    outcome (parseStatement eof (u ++ rest)) = .ok (s, rest) := by
  cases h with
  | @declare u e l l₁ l₂ r kind name he =>
    rw [List.cons_append, outcome_parseStatement_kind, parseDeclaration_eq_ok]
    exact ⟨name, l₁, l₂, u, e, r, by simp, he, rfl⟩
  | @print v es l l₁ r r₁ hes =>
    rw [List.cons_append, outcome_parseStatement_print, parsePrint_eq_ok]
    exact ⟨l₁, v, es, r, r₁, by simp, hes, rfl⟩
  | @branch u v w arm arms otherwise l harm harms hotherwise =>
    rw [List.cons_append, outcome_parseStatement_if, List.append_assoc, List.append_assoc]
    have hread := parseArm_complete harm (v ++ (w ++ rest))
    have hmore := parseArms_complete harms (hotherwise.front_append hrest.1)
    have hend := parseElse_complete hotherwise hrest.2
    simp only [ok_bind, hread, hmore, hend]
    rfl
  | @loop u v condition body l hcondition hbody =>
    rw [List.cons_append, outcome_parseStatement_while, List.append_assoc]
    have hread : outcome (parseCondition eof (u ++ (v ++ rest))) = .ok (condition, v ++ rest) :=
      parseCondition_eq_ok.mpr ⟨u, rfl, hcondition⟩
    have hblock := parseBlock_complete hbody rest
    simp only [ok_bind, hread, hblock]
    rfl
  | @define u v kind name parameters body l hheader hbody =>
    rw [List.cons_append, outcome_parseStatement_fun, List.append_assoc]
    have hread : outcome (parseHeader eof (u ++ (v ++ rest))) =
        .ok ((kind, name, parameters), v ++ rest) :=
      parseHeader_eq_ok.mpr ⟨u, rfl, hheader⟩
    have hblock := parseBlock_complete hbody rest
    simp only [ok_bind, hread, hblock]
    rfl
  | returnNothing l r =>
    rw [List.cons_append, outcome_parseStatement_return, parseReturn_eq_ok]
    exact .inl ⟨r, rfl, rfl⟩
  | @returnValue u e l r he =>
    rw [List.cons_append, outcome_parseStatement_return, parseReturn_eq_ok]
    exact .inr ⟨u, e, r, by simp, he, rfl⟩
  | importModule l l₁ r name =>
    rw [List.cons_append, outcome_parseStatement_import, parseImport_eq_ok]
    exact ⟨name, l₁, r, rfl, rfl⟩
  | @evaluate u e l r name he =>
    rw [List.cons_append, outcome_parseStatement_identifier, parseSimple_eq_ok]
    exact .inl ⟨_, e, r, by simp, he, rfl⟩
  | @assign u v e target l' l l₁ r name htarget hvalue =>
    rw [List.cons_append, outcome_parseStatement_identifier, parseSimple_eq_ok]
    exact .inr ⟨_, l', target, l₁, v, e, r, by simp, htarget, hvalue, rfl⟩

theorem parseArm_complete {l : Option Location} {u : List Token} {arm : Arm} (h : IsArm l u arm)
    (rest : List Token) : outcome (parseArm eof l (u ++ rest)) = .ok (arm, rest) := by
  cases h with
  | @mk u v condition body _ hcondition hbody =>
    rw [outcome_parseArm, List.append_assoc]
    have hread : outcome (parseCondition eof (u ++ (v ++ rest))) = .ok (condition, v ++ rest) :=
      parseCondition_eq_ok.mpr ⟨u, rfl, hcondition⟩
    have hblock := parseBlock_complete hbody rest
    simp only [ok_bind, hread, hblock]
    rfl

theorem parseArms_complete {v : List Token} {arms : List Arm} (h : IsArms v arms)
    {rest : List Token} (hrest : front rest ≠ some (.keyword .elifWord)) :
    outcome (parseArms eof (v ++ rest)) = .ok (arms, rest) := by
  cases h with
  | nil => exact outcome_parseArms_none eof hrest
  | @cons u v arm arms l harm harms =>
    rw [List.cons_append, outcome_parseArms_elif, List.append_assoc]
    have hread := parseArm_complete harm (v ++ rest)
    have hmore := parseArms_complete harms hrest
    simp only [ok_bind, hread, hmore]
    rfl

theorem parseElse_complete {w : List Token} {otherwise : Option Block} (h : IsElse w otherwise)
    {rest : List Token} (hrest : front rest ≠ some (.keyword .elseWord)) :
    outcome (parseElse eof (w ++ rest)) = .ok (otherwise, rest) := by
  cases h with
  | absent => exact outcome_parseElse_none eof hrest
  | given l hblock =>
    rw [List.cons_append, outcome_parseElse_else]
    have hread := parseBlock_complete hblock rest
    simp only [ok_bind, hread]
    rfl

theorem parseBlock_complete {u : List Token} {block : Block} (h : IsBlock u block)
    (rest : List Token) : outcome (parseBlock eof (u ++ rest)) = .ok (block, rest) := by
  cases h with
  | @mk u ss l r hss =>
    rw [List.cons_append, outcome_parseBlock, List.append_assoc, List.singleton_append]
    have hread : outcome (parseStatements eof (u ++ ⟨.symbol .rbrace, r⟩ :: rest)) =
        .ok (ss, ⟨.symbol .rbrace, r⟩ :: rest) :=
      parseStatements_complete hss (.inr rfl)
    rw [(outcome_expect_eq_ok eof).mpr rfl]
    simp only [ok_bind, hread, (outcome_expect_eq_ok eof).mpr rfl]
    rfl

theorem parseStatements_complete {u : List Token} {ss : List Statement} (h : IsStatements u ss)
    {rest : List Token} (hrest : front rest = none ∨ front rest = some (.symbol .rbrace)) :
    outcome (parseStatements eof (u ++ rest)) = .ok (ss, rest) := by
  cases h with
  | nil => exact outcome_parseStatements_end eof hrest
  | @cons u v s ss h more =>
    have hcloses : Closes rest := by
      rcases hrest with hrest | hrest <;> simp [Closes, hrest]
    rw [List.append_assoc, outcome_parseStatements eof (h.front_append _).1]
    have hread := parseStatement_complete h (more.closes_append hcloses)
    have hmore := parseStatements_complete more hrest
    simp only [ok_bind, hread, hmore]
    rfl

end

end KLang
