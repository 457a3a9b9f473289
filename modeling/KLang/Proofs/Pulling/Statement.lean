import KLang.Proofs.Pulling.Expression
import KLang.Proofs.Rejection.Program

/-!
# Programs from tokens on demand

A program is read one token at a time. Nothing that is read bounds the reading, only the depth to which
calls and rounds may be nested, and a depth of two for each token and four more is always enough: two
for the arms of a branch, three for a statement and four for a list of them, which a block comes to
behind its brace. Then the reading ends with the result of the parser that is given all tokens at
once. Every round of every loop reads at least one token, each token is asked for once, and nothing is
asked for behind the end of the text.

* `Pulling.parseStatement`, `Pulling.parseBlock`, `Pulling.parseProgram`: statements, blocks and
  programs.
* `mirrors_parseStatement`, `mirrors_parseAll`: deep enough, they end, and do what the parser's results
  say.
* `pulling_ends`: what is known of reading a text.
-/

namespace KLang

namespace Pulling

/-! ## Statements without blocks -/

section plain

variable (depth : Nat)

/-- An expression. -/
def parseExpr (mode : Mode) : Pulling Expr := parseAbove depth mode .lowest

/-- The rest of a declaration behind its kind. -/
def parseDeclaration (location : Option Location) (kind : Kind) : Pulling Statement := do
  let name ← expectName
  let _ ← expect .assign
  let value ← parseExpr depth .plain
  let _ ← expect .semicolon
  return .declare location kind name value

/-- The rest of a print statement behind its first word. -/
def parsePrint (location : Option Location) : Pulling Statement := do
  let _ ← expect .lparen
  let items ← parseItems depth .items .add true
  let _ ← expect .semicolon
  return .print location items

/-- The rest of a return statement behind its first word. -/
def parseReturn (location : Option Location) : Pulling Statement := do
  if (← word) = some (.symbol .semicolon) then
    ask
    return .returnValue location none
  else
    let value ← parseExpr depth .plain
    let _ ← expect .semicolon
    return .returnValue location (some value)

/-- The rest of an import behind its first word. -/
def parseImport (location : Option Location) : Pulling Statement := do
  let name ← expectName
  let _ ← expect .semicolon
  return .importModule location name

/-- The rest of an assignment behind its target, of which `target` was read. -/
def parseAssigned (location : Option Location) (target : Expr) : Pulling Statement := do
  match target with
  | .variable targetLocation name =>
    let _ ← expect .assign
    let value ← parseExpr depth .plain
    let _ ← expect .semicolon
    return .assign location targetLocation name value
  | _ => fail fun _ => .assignmentTarget

/-- An expression or an assignment as a statement. -/
def parseSimple (location : Option Location) : Pulling Statement := do
  let e ← parseExpr depth .plain
  if (← word) = some (.symbol .assign) then parseAssigned depth location e
  else
    let _ ← expect .semicolon
    return .evaluate location e

end plain

/-! ## Parameters and conditions -/

/-- A parameter, whose name must differ from the names before it. -/
def parseParameter (seen : List String) : Pulling Parameter := do
  let location ← here
  let kind ← expectKind
  let name ← expectName
  if name ∈ seen then throw (.parse (.duplicateParameter name) location)
  else return ⟨location, kind, name⟩

/-- The parameters up to a `)`, with a comma in front of each but the first. -/
def parseParameters : Nat → List String → Pulling (List Parameter)
  | 0, _ => tooDeep
  | depth + 1, seen => do
    if (← word) = some (.symbol .rparen) then
      ask
      return []
    else
      let p ← round .parameters (separated .comma seen.isEmpty (parseParameter seen))
      let ps ← parseParameters depth (p.name :: seen)
      return p :: ps

section header

variable (depth : Nat)

/-- A condition in parentheses. -/
def parseCondition : Pulling Expr := do
  let _ ← expect .lparen
  let e ← parseExpr depth .plain
  let _ ← expect .rparen
  return e

/-- The name and parameters of a function of the given kind. -/
def parseHeaderBehind (kind : Kind) : Pulling (Kind × String × List Parameter) := do
  let name ← expectName
  let _ ← expect .lparen
  let parameters ← parseParameters depth []
  return (kind, name, parameters)

/-- The kind, name and parameters of a function; without a kind it is `var`. -/
def parseHeader : Pulling (Kind × String × List Parameter) := do
  match ← word with
  | some (.keyword (.kind kind)) =>
    ask
    parseHeaderBehind depth kind
  | _ => parseHeaderBehind depth .var

end header

/-! ## Statements with blocks -/

mutual

/-- A statement. -/
def parseStatement : Nat → Pulling Statement
  | 0 => tooDeep
  | depth + 1 => do
    let location ← here
    match ← word with
    | some (.keyword (.kind kind)) =>
      ask
      parseDeclaration depth location kind
    | some (.keyword .printWord) =>
      ask
      parsePrint depth location
    | some (.keyword .ifWord) =>
      let arms ← parseArms depth .ifWord
      let otherwise ← parseElse depth
      return .branch location arms otherwise
    | some (.keyword .whileWord) =>
      ask
      let condition ← parseCondition depth
      let body ← parseBlock depth
      return .loop location condition body
    | some (.keyword .funWord) =>
      ask
      let (kind, name, parameters) ← parseHeader depth
      let body ← parseBlock depth
      return .define location ⟨kind, name, parameters, body⟩
    | some (.keyword .returnWord) =>
      ask
      parseReturn depth location
    | some (.keyword .importWord) =>
      ask
      parseImport location
    | some (.identifier _) => parseSimple depth location
    | _ => fail .unexpectedToken

/-- The arms behind a keyword, of which the first one is given and the others are `elif`. -/
def parseArms : Nat → Keyword → Pulling (List Arm)
  | 0, _ => tooDeep
  | depth + 1, first => do
    if (← word) = some (.keyword first) then
      let arm ← round .arms (parseArm depth)
      let arms ← parseArms depth .elifWord
      return arm :: arms
    else return []

/-- A keyword, a condition and a block. -/
def parseArm : Nat → Pulling Arm
  | 0 => tooDeep
  | depth + 1 => do
    let location ← here
    ask
    let condition ← parseCondition depth
    let body ← parseBlock depth
    return ⟨location, condition, body⟩

/-- An `else` block, if there is one. -/
def parseElse : Nat → Pulling (Option Block)
  | 0 => tooDeep
  | depth + 1 => do
    if (← word) = some (.keyword .elseWord) then
      ask
      let block ← parseBlock depth
      return some block
    else return none

/-- Statements in braces. -/
def parseBlock : Nat → Pulling Block
  | 0 => tooDeep
  | depth + 1 => do
    let location ← expect .lbrace
    let statements ← parseStatements depth
    let _ ← expect .rbrace
    return ⟨location, statements⟩

/-- Statements up to a `}` or the end of the text. -/
def parseStatements : Nat → Pulling (List Statement)
  | 0 => tooDeep
  | depth + 1 => do
    let w ← word
    if w = none ∨ w = some (.symbol .rbrace) then return []
    else
      let s ← round .block (parseStatement depth)
      let ss ← parseStatements depth
      return s :: ss

end

/-! ## Programs -/

/-- Statements up to the end of the text. -/
def parseAll : Nat → Pulling (List Statement)
  | 0 => tooDeep
  | depth + 1 => do
    if (← word) = none then return []
    else
      let s ← round .program (parseStatement depth)
      let ss ← parseAll depth
      return s :: ss

/-- The program of a text. The first token is asked for before anything is read. -/
def parseProgram (depth : Nat) : Pulling Program := do
  ask
  let location ← here
  let statements ← parseAll depth
  return ⟨location, statements⟩

end Pulling

/-- The parser in front of a text that begins at the given location, before it has asked for
anything. -/
def Puller.start (source : String) (location : Option Location) : Puller :=
  ⟨⟨location, source.toList⟩, none, [], []⟩

/-- What is said of a text that is not a program. -/
def SyntaxError.halt : SyntaxError → Halt
  | .lexical e => .lexical e
  | .parse p => .parse p.fault p.location

/-! ## What they do -/

/-- The arms from a keyword on, where it stands in front. -/
def armsFrom (eof : Option Location) (w : Keyword) :
    List Token → Except ParseError (List Arm × List Token)
  | [] => .ok ([], [])
  | t :: ts =>
    if t.lexeme = .keyword w then do
      let (arm, rest) ← outcome (parseArm eof t.location ts)
      let (arms, rest) ← outcome (parseArms eof rest)
      return (arm :: arms, rest)
    else .ok ([], t :: ts)

theorem armsFrom_keyword (eof l : Option Location) (w : Keyword) (ts : List Token) :
    armsFrom eof w (⟨.keyword w, l⟩ :: ts) = (do
      let (arm, rest) ← outcome (parseArm eof l ts)
      let (arms, rest) ← outcome (parseArms eof rest)
      return (arm :: arms, rest)) := if_pos rfl

theorem armsFrom_none {eof : Option Location} {w : Keyword} {ts : List Token}
    (h : front ts ≠ some (.keyword w)) : armsFrom eof w ts = .ok ([], ts) := by
  cases ts with
  | nil => rfl
  | cons t ts => exact if_neg fun hw => h (congrArg some hw)

theorem outcome_parseArms (eof : Option Location) (ts : List Token) :
    outcome (parseArms eof ts) = armsFrom eof .elifWord ts := by
  by_cases hword : front ts = some (.keyword .elifWord)
  · obtain ⟨l, rest, rfl⟩ := front_eq_some.mp hword
    rw [armsFrom_keyword, outcome_parseArms_elif]
  · rw [armsFrom_none hword, outcome_parseArms_none _ hword]

section mirrors

variable {whole : Tokens} {depth : Nat}

theorem mirrors_parseExpr (mode : Mode) {ts : List Token} (hdepth : 2 * ts.length + 2 ≤ depth) :
    Mirrors whole ts (Pulling.parseExpr depth mode) (outcome (parseExpr whole.last mode ts)) :=
  mirrors_parseAbove mode .lowest ts hdepth

theorem mirrors_parseDeclaration (l : Option Location) (kind : Kind) {ts : List Token}
    (hdepth : 2 * ts.length + 2 ≤ depth) :
    Mirrors whole ts (Pulling.parseDeclaration depth l kind)
      (outcome (parseDeclaration whole.last l kind ts)) := by
  rw [outcome_parseDeclaration]
  refine .bind .expectName fun _ _ hname => .bind (.expect _) fun _ rest hassign => ?_
  have hlt := length_lt_trans (length_lt_of_outcome hname) (length_lt_of_outcome hassign)
  exact .closed _ _ (mirrors_parseExpr _ (by omega))

theorem mirrors_parsePrint (l : Option Location) {ts : List Token}
    (hdepth : 2 * ts.length + 2 ≤ depth) :
    Mirrors whole ts (Pulling.parsePrint depth l) (outcome (parsePrint whole.last l ts)) := by
  rw [outcome_parsePrint]
  refine .bind (.expect _) fun _ rest h => ?_
  have hlt := length_lt_of_outcome h
  exact .closed _ _ (mirrors_parseItems _ _ _ (by omega))

theorem mirrors_parseReturn (l : Option Location) {ts : List Token}
    (hdepth : 2 * ts.length + 2 ≤ depth) :
    Mirrors whole ts (Pulling.parseReturn depth l) (outcome (parseReturn whole.last l ts)) := by
  refine .word ?_
  by_cases hend : front ts = some (.symbol .semicolon)
  · obtain ⟨r, rest, rfl⟩ := front_eq_some.mp hend
    rw [if_pos hend]
    exact .next (.pure _)
  · rw [if_neg hend, outcome_parseReturn _ hend]
    exact .closed _ _ (mirrors_parseExpr _ hdepth)

theorem mirrors_parseImport (l : Option Location) (ts : List Token) :
    Mirrors whole ts (Pulling.parseImport l) (outcome (parseImport whole.last l ts)) := by
  rw [outcome_parseImport]
  exact .closed _ _ .expectName

theorem mirrors_parseAssigned (l : Option Location) (target : Expr) {ts : List Token}
    (hdepth : 2 * ts.length + 2 ≤ depth) :
    Mirrors whole ts (Pulling.parseAssigned depth l target)
      (outcome (parseAssigned whole.last l target ts)) := by
  match target with
  | .variable l' name =>
    rw [outcome_parseAssigned]
    refine .bind (.expect _) fun _ rest h => ?_
    have hlt := length_lt_of_outcome h
    exact .closed _ _ (mirrors_parseExpr _ (by omega))
  | .number .. | .string .. | .unary .. | .binary .. | .step .. | .call .. => exact .fail _

theorem mirrors_parseSimple (l : Option Location) {ts : List Token}
    (hdepth : 2 * ts.length + 2 ≤ depth) :
    Mirrors whole ts (Pulling.parseSimple depth l) (outcome (parseSimple whole.last l ts)) := by
  rw [outcome_parseSimple]
  refine .bind (mirrors_parseExpr _ hdepth) fun e rest h => .word ?_
  have hlt := length_lt_of_outcome h
  dsimp only
  split
  · exact mirrors_parseAssigned l e (by omega)
  · exact .bind (.expect _) fun _ _ _ => .pure _

theorem mirrors_parseParameter (seen : List String) (ts : List Token) :
    Mirrors whole ts (Pulling.parseParameter seen) (outcome (parseParameter whole.last seen ts)) := by
  rw [outcome_parseParameter]
  refine .here (.bind .expectKind fun kind _ _ => .bind .expectName fun name rest _ => ?_)
  dsimp only
  split
  · exact .throw _ _
  · exact .pure _

theorem mirrors_parseMoreParameters (name : String) (seen : List String) {ts : List Token}
    (hdepth : 2 * ts.length + 2 ≤ depth) :
    Mirrors whole ts (Pulling.parseParameters depth (name :: seen))
      (outcome (parseMoreParameters whole.last (name :: seen) ts)) := by
  induction depth generalizing name seen ts with
  | zero => omega
  | succ depth ih =>
    rw [Pulling.parseParameters]
    refine .word ?_
    by_cases hend : front ts = some (.symbol .rparen)
    · obtain ⟨l, rest, rfl⟩ := front_eq_some.mp hend
      rw [if_pos hend, parseMoreParameters]
      exact .next (.pure [])
    · rw [if_neg hend, outcome_parseMoreParameters hend]
      refine .separated (fun rest _ => mirrors_parseParameter _ rest) fun p rest hlt => ?_
      exact .bind (ih p.name (name :: seen) (by omega)) fun _ _ _ => .pure _

theorem mirrors_parseParameters {ts : List Token} (hdepth : 2 * ts.length + 2 ≤ depth) :
    Mirrors whole ts (Pulling.parseParameters depth []) (outcome (parseParameters whole.last ts)) := by
  cases depth with
  | zero => omega
  | succ depth =>
    rw [Pulling.parseParameters]
    refine .word ?_
    by_cases hend : front ts = some (.symbol .rparen)
    · obtain ⟨l, rest, rfl⟩ := front_eq_some.mp hend
      rw [if_pos hend]
      exact .next (.pure [])
    · rw [if_neg hend, outcome_parseParameters hend]
      refine .bind (.round _ (mirrors_parseParameter [] ts) fun _ _ => length_lt_of_outcome)
        fun p rest h => ?_
      have hlt := length_lt_of_outcome h
      exact .bind (mirrors_parseMoreParameters p.name [] (by omega)) fun _ _ _ => .pure _

theorem mirrors_parseCondition {ts : List Token} (hdepth : 2 * ts.length + 2 ≤ depth) :
    Mirrors whole ts (Pulling.parseCondition depth) (outcome (parseCondition whole.last ts)) := by
  rw [outcome_parseCondition]
  refine .bind (.expect _) fun _ rest h => ?_
  have hlt := length_lt_of_outcome h
  exact .closed _ _ (mirrors_parseExpr _ (by omega))

theorem mirrors_parseHeaderBehind (kind : Kind) {ts : List Token}
    (hdepth : 2 * ts.length + 2 ≤ depth) :
    Mirrors whole ts (Pulling.parseHeaderBehind depth kind) (headerBehind whole.last kind ts) := by
  refine .bind .expectName fun _ _ hname => .bind (.expect _) fun _ rest hparen => ?_
  have hlt := length_lt_trans (length_lt_of_outcome hname) (length_lt_of_outcome hparen)
  exact .bind (mirrors_parseParameters (by omega)) fun _ _ _ => .pure _

theorem mirrors_parseHeader {ts : List Token} (hdepth : 2 * ts.length + 2 ≤ depth) :
    Mirrors whole ts (Pulling.parseHeader depth) (outcome (parseHeader whole.last ts)) := by
  refine .word ?_
  by_cases hkind : ∃ kind, front ts = some (.keyword (.kind kind))
  · obtain ⟨kind, hkind⟩ := hkind
    obtain ⟨l, rest, rfl⟩ := front_eq_some.mp hkind
    rw [outcome_parseHeader_given]
    rw [List.length_cons] at hdepth
    exact .next (mirrors_parseHeaderBehind kind (by omega))
  · rw [outcome_parseHeader_absent fun kind h => hkind ⟨kind, h⟩]
    split
    · exact absurd ⟨_, ‹_›⟩ hkind
    · exact mirrors_parseHeaderBehind .var hdepth

-- as for expressions, by induction on the depth
mutual

theorem mirrors_parseStatement (ts : List Token) :
    ∀ {depth}, 2 * ts.length + 3 ≤ depth →
      Mirrors whole ts (Pulling.parseStatement depth) (outcome (parseStatement whole.last ts))
  | depth + 1, hdepth => by
    rw [Pulling.parseStatement]
    refine .here (.word ?_)
    match ts with
    | [] =>
      rw [parseStatement]
      · exact .fail _
      all_goals simp
    | ⟨.identifier name, l⟩ :: ts =>
      rw [outcome_parseStatement_identifier]
      exact mirrors_parseSimple l (by omega)
    | ⟨.number .., l⟩ :: ts | ⟨.string _, l⟩ :: ts | ⟨.symbol _, l⟩ :: ts =>
      rw [parseStatement]
      · exact .fail _
      all_goals simp
    | ⟨.keyword k, l⟩ :: ts =>
      have hnext : 2 * ts.length + 4 ≤ depth := by
        rw [List.length_cons] at hdepth
        omega
      match k with
      | .kind kind =>
        rw [outcome_parseStatement_kind]
        exact .next (mirrors_parseDeclaration l kind (by omega))
      | .printWord =>
        rw [outcome_parseStatement_print]
        exact .next (mirrors_parsePrint l (by omega))
      | .ifWord =>
        have harms : outcome (parseStatement whole.last (⟨.keyword .ifWord, l⟩ :: ts)) = (do
            let (arms, rest) ← armsFrom whole.last .ifWord (⟨.keyword .ifWord, l⟩ :: ts)
            let (otherwise, rest) ← outcome (parseElse whole.last rest)
            return (.branch l arms otherwise, rest)) := by
          rw [outcome_parseStatement_if, armsFrom_keyword]
          simp only [bind_assoc, pure_bind]
        rw [harms]
        have hmirrors : Mirrors whole (⟨.keyword .ifWord, l⟩ :: ts) _ _ :=
          mirrors_parseArms .ifWord _ hnext
        refine .bind hmirrors fun arms rest h => ?_
        have hle := hmirrors.suffix.length_le
        rw [h, restOf, List.length_cons] at hle
        exact .bind (mirrors_parseElse rest (by omega)) fun _ _ _ => .pure _
      | .whileWord =>
        rw [outcome_parseStatement_while]
        refine .next (.bind (mirrors_parseCondition (by omega)) fun condition rest h => ?_)
        have hlt := length_lt_of_outcome h
        exact .bind (mirrors_parseBlock rest (by omega)) fun _ _ _ => .pure _
      | .funWord =>
        rw [outcome_parseStatement_fun]
        refine .next (.bind (mirrors_parseHeader (by omega)) fun header rest h => ?_)
        have hlt := length_lt_of_outcome h
        exact .bind (mirrors_parseBlock rest (by omega)) fun _ _ _ => .pure _
      | .returnWord =>
        rw [outcome_parseStatement_return]
        exact .next (mirrors_parseReturn l (by omega))
      | .importWord =>
        rw [outcome_parseStatement_import]
        exact .next (mirrors_parseImport l ts)
      | .elifWord | .elseWord | .xorWord =>
        rw [parseStatement]
        · exact .fail _
        all_goals simp

theorem mirrors_parseArms (w : Keyword) (ts : List Token) :
    ∀ {depth}, 2 * ts.length + 2 ≤ depth →
      Mirrors whole ts (Pulling.parseArms depth w) (armsFrom whole.last w ts)
  | depth + 1, hdepth => by
    rw [Pulling.parseArms]
    refine .word ?_
    by_cases hword : front ts = some (.keyword w)
    · obtain ⟨l, ts, rfl⟩ := front_eq_some.mp hword
      rw [if_pos hword, armsFrom_keyword]
      rw [List.length_cons] at hdepth
      refine .bind (.round _ (mirrors_parseArm w l ts (by omega)) fun _ _ h =>
        Nat.lt_succ_of_lt (length_lt_of_outcome h)) fun arm rest h => ?_
      have hlt := length_lt_of_outcome h
      dsimp only
      rw [outcome_parseArms]
      exact .bind (mirrors_parseArms .elifWord rest (by omega)) fun _ _ _ => .pure _
    · rw [if_neg hword, armsFrom_none hword]
      exact .pure []

theorem mirrors_parseArm (w : Keyword) (l : Option Location) (ts : List Token) :
    ∀ {depth}, 2 * ts.length + 3 ≤ depth →
      Mirrors whole (⟨.keyword w, l⟩ :: ts) (Pulling.parseArm depth)
        (outcome (parseArm whole.last l ts))
  | depth + 1, hdepth => by
    rw [Pulling.parseArm, outcome_parseArm]
    refine .here (.next (.bind (mirrors_parseCondition (by omega)) fun condition rest h => ?_))
    have hlt := length_lt_of_outcome h
    exact .bind (mirrors_parseBlock rest (by omega)) fun _ _ _ => .pure _

theorem mirrors_parseElse (ts : List Token) :
    ∀ {depth}, 2 * ts.length + 2 ≤ depth →
      Mirrors whole ts (Pulling.parseElse depth) (outcome (parseElse whole.last ts))
  | depth + 1, hdepth => by
    rw [Pulling.parseElse]
    refine .word ?_
    by_cases hword : front ts = some (.keyword .elseWord)
    · obtain ⟨l, ts, rfl⟩ := front_eq_some.mp hword
      rw [List.length_cons] at hdepth
      rw [if_pos hword, outcome_parseElse_else]
      exact .next (.bind (mirrors_parseBlock ts (by omega)) fun _ _ _ => .pure _)
    · rw [if_neg hword, outcome_parseElse_none _ hword]
      exact .pure none

theorem mirrors_parseBlock (ts : List Token) :
    ∀ {depth}, 2 * ts.length + 3 ≤ depth →
      Mirrors whole ts (Pulling.parseBlock depth) (outcome (parseBlock whole.last ts))
  | depth + 1, hdepth => by
    rw [Pulling.parseBlock, outcome_parseBlock]
    refine .bind (.expect .lbrace) fun l rest h => ?_
    have hlt := length_lt_of_outcome h
    exact .closed _ _ (mirrors_parseStatements rest (by omega))

theorem mirrors_parseStatements (ts : List Token) :
    ∀ {depth}, 2 * ts.length + 4 ≤ depth →
      Mirrors whole ts (Pulling.parseStatements depth) (outcome (parseStatements whole.last ts))
  | depth + 1, hdepth => by
    rw [Pulling.parseStatements]
    refine .word ?_
    by_cases hend : front ts = none ∨ front ts = some (.symbol .rbrace)
    · rw [if_pos hend, outcome_parseStatements_end _ hend]
      exact .pure []
    · rw [if_neg hend, outcome_parseStatements _ hend]
      refine .bind (.round _ (mirrors_parseStatement ts (by omega)) fun _ _ =>
        length_lt_of_outcome) fun s rest h => ?_
      have hlt := length_lt_of_outcome h
      exact .bind (mirrors_parseStatements rest (by omega)) fun _ _ _ => .pure _

end

theorem mirrors_parseAll {ts : List Token} (hdepth : 2 * ts.length + 4 ≤ depth) :
    Mirrors whole ts (Pulling.parseAll depth) (readAll whole.last ts) := by
  induction depth generalizing ts with
  | zero => omega
  | succ depth ih =>
    rw [Pulling.parseAll]
    refine .word ?_
    cases ts with
    | nil =>
      rw [readAll, parseAll]
      exact .pure []
    | cons t ts =>
      rw [readAll_cons]
      refine .bind (.round _ (mirrors_parseStatement (t :: ts) (by omega)) fun _ _ =>
        length_lt_of_outcome) fun s rest h => ?_
      have hlt : rest.length < ts.length + 1 := length_lt_of_outcome h
      rw [List.length_cons] at hdepth
      exact .bind (ih (by omega)) fun _ _ _ => .pure _

end mirrors

/-! ## Texts -/

/-- The program as a result with nothing behind it. -/
theorem parseProgram_eq_readAll (eof : Option Location) (ts : List Token) :
    (parseProgram eof ts).map (·, []) = (do
      let (statements, rest) ← readAll eof ts
      return (⟨frontLocation eof ts, statements⟩, rest)) := by
  rw [parseProgram, readAll]
  cases parseAll eof ts <;> rfl

theorem settles_parseProgram (source : String) (location : Option Location) {depth : Nat}
    (hdepth : 2 * (Tokens.ofText source location).words.length + 4 ≤ depth) :
    Settles (Tokens.ofText source location)
      ((parseProgram (Tokens.ofText source location).last (Tokens.ofText source location).words).map
        (·, []))
      ((Pulling.parseProgram depth).runFrom (.start source location)) := by
  have hreads := Cursor.reads_ofChars ⟨location, source.toList⟩
  have hask : Settles (Tokens.ofText source location) (.ok ((), (Tokens.ofText source location).words))
      (Pulling.ask.runFrom (.start source location)) := settles_ask (c := []) rfl rfl hreads nofun
  rw [parseProgram_eq_readAll]
  refine hask.bind (g := fun _ => _) fun _ _ h => ?_
  cases h
  exact .here (.bind (mirrors_parseAll hdepth) fun _ _ _ => .pure _)

theorem Program.ofTokens_of_complete {ts : Tokens} {eof : Option Location}
    (hending : ts.ending = .complete eof) :
    ofTokens ts = (parseProgram ts.last ts.words).mapError .parse := by
  rw [ofTokens, Tokens.last, hending]

theorem Program.ofTokens_of_error {ts : Tokens} {p : ParseError}
    (hparse : parseProgram ts.last ts.words = .error p)
    (hrest : p.rest = [] → ∃ eof, ts.ending = .complete eof) : ofTokens ts = .error (.parse p) := by
  cases hending : ts.ending with
  | complete eof =>
    rw [ofTokens_of_complete hending, hparse]
    rfl
  | broken e =>
    have hrest : p.rest ≠ [] := fun h => by
      obtain ⟨eof, h⟩ := hrest h
      cases hending.symm.trans h
    rw [Tokens.last, hending] at hparse
    rw [ofTokens, hending]
    dsimp only
    rw [hparse]
    dsimp only
    rw [if_neg hrest]

theorem Program.ofTokens_of_broken {ts : Tokens} {e : LexError} (hending : ts.ending = .broken e)
    (hrest : ∀ p, parseProgram ts.last ts.words = .error p → p.rest = []) :
    ofTokens ts = .error (.lexical e) := by
  rw [Tokens.last, hending] at hrest
  rw [ofTokens, hending]
  dsimp only
  cases hparse : parseProgram e.location ts.words with
  | ok program => rfl
  | error p =>
    dsimp only
    rw [if_pos (hrest p hparse)]

theorem Settles.ofTokens {whole : Tokens} {out : Option (Except Halt Program × Puller)}
    (h : Settles whole ((parseProgram whole.last whole.words).map (·, [])) out) :
    ∃ s, out = some ((Program.ofTokens whole).mapError SyntaxError.halt, s) ∧ Asked whole s ∧
      ∀ program, Program.ofTokens whole = .ok program → InFrontOf whole [] s := by
  generalize hread : (parseProgram whole.last whole.words).map (·, []) = r at h
  cases h with
  | @ok program rest s h =>
    cases hparse : parseProgram whole.last whole.words with
    | error p => rw [hparse] at hread; cases hread
    | ok program =>
      rw [hparse] at hread
      cases hread
      obtain ⟨eof, hending⟩ := h.complete
      rw [Program.ofTokens_of_complete hending, hparse]
      exact ⟨s, rfl, h.asked, fun _ _ => h⟩
  | @error p s h asked =>
    cases hparse : parseProgram whole.last whole.words with
    | ok program => rw [hparse] at hread; cases hread
    | error p =>
      rw [hparse] at hread
      cases hread
      rw [Program.ofTokens_of_error hparse h]
      exact ⟨s, rfl, asked, nofun⟩
  | @broken r e s h hrest asked =>
    rw [Program.ofTokens_of_broken h fun p hparse => ?_]
    · exact ⟨s, rfl, asked, nofun⟩
    · rw [hparse] at hread
      cases hread
      exact hrest

theorem Tokens.eq_nil_of_answers {ts : Tokens} {as bs : List (Except LexError (Option Token))}
    (h : ts.answers = as ++ .ok none :: bs) : bs = [] := by
  obtain rfl | ⟨bs, b, rfl⟩ := List.eq_nil_or_concat bs
  · rfl
  · rw [Tokens.answers, List.concat_eq_append, ← List.cons_append, ← List.append_assoc] at h
    have hwords := (List.append_inj' h rfl).1
    have hmem : .ok none ∈ ts.words.map fun t => (.ok (some t) : Except LexError (Option Token)) := by
      rw [hwords]
      simp
    simp at hmem

/-- **Reading a text always ends, and reads each token once.** Let calls and rounds be nested to a depth
of two for each token and four more. Then the parser that asks for its tokens one at a time ends, with
the program, the parse error or the lexical error that the parser finds that is given all tokens at
once. It was given the first answers that the text has, so it did not ask again behind the end of the
text or the place where that is broken; if there is a program, it was given each token once and then
the end. Every round of every loop that did not fail has left fewer tokens than it found. -/
theorem pulling_ends (source : String) (location : Option Location) (depth : Nat)
    (hdepth : 2 * (Tokens.ofText source location).words.length + 4 ≤ depth) :
    ∃ s, (Pulling.parseProgram depth).runFrom (.start source location) =
        some ((Program.ofText source location).mapError SyntaxError.halt, s) ∧
      (s.answers ≠ [] ∧ s.answers <+: (Tokens.ofText source location).answers) ∧
      (∀ as bs, s.answers = as ++ .ok none :: bs → bs = []) ∧
      (∀ program, Program.ofText source location = .ok program → s.answers =
        (Tokens.ofText source location).words.map (fun t => .ok (some t)) ++ [.ok none]) ∧
      ∀ r ∈ s.rounds, r.Shortens := by
  obtain ⟨s, hrun, hasked, hdone⟩ := (settles_parseProgram source location hdepth).ofTokens
  refine ⟨s, hrun, ⟨hasked.ne_nil, hasked.isPrefix⟩, fun as bs h => ?_, fun program h => ?_,
    hasked.rounds⟩
  · obtain ⟨more, hmore⟩ := hasked.isPrefix
    rw [h, List.append_assoc] at hmore
    exact (List.append_eq_nil_iff.mp (Tokens.eq_nil_of_answers hmore.symm)).1
  · have hfront := hdone program h
    obtain ⟨eof, hending⟩ := hfront.complete
    rw [hfront.answers_eq, Tokens.answers, hending]
    rfl

/-- A block that is not closed. The argument, the call and the statement were rounds, and the end of the
text was asked for once. -/
theorem pulling_ends_unclosed :
    2 * (Tokens.ofText "while (a) \x7b f(a);" none).words.length + 4 ≤ 24 ∧
      ∃ s, (Pulling.parseProgram 24).runFrom (.start "while (a) \x7b f(a);" none) =
          some (.error (.parse (.expectedSymbol .rbrace none) none), s) ∧
        (s.answers.length = 11 ∧ s.answers <+: (Tokens.ofText "while (a) \x7b f(a);" none).answers) ∧
        s.rounds.map (·.loop) = [.items, .followers, .block] ∧ ∀ r ∈ s.rounds, r.Shortens := by
  have hdepth : 2 * (Tokens.ofText "while (a) \x7b f(a);" none).words.length + 4 ≤ 24 := by
    decide +kernel
  have hdone : ((Pulling.parseProgram 24).runFrom (.start "while (a) \x7b f(a);" none)).map
      (fun p => (p.1.map fun _ => (), p.2.answers.length, p.2.rounds.map (·.loop))) =
        some (.error (.parse (.expectedSymbol .rbrace none) none), 11,
          [.items, .followers, .block]) := by
    decide +kernel
  obtain ⟨s, hrun, ⟨-, hprefix⟩, -, -, hrounds⟩ := pulling_ends "while (a) \x7b f(a);" none 24 hdepth
  generalize Program.ofText "while (a) \x7b f(a);" none = read at hrun
  rw [hrun, Option.map_some, Option.some.injEq, Prod.mk.injEq, Prod.mk.injEq] at hdone
  obtain ⟨hread, hlength, hloops⟩ := hdone
  cases read with
  | ok program => cases hread
  | error e =>
    have hhalt : e.halt = .parse (.expectedSymbol .rbrace none) none := Except.error.inj hread
    rw [← hhalt]
    exact ⟨hdepth, s, hrun, ⟨hlength, hprefix⟩, hloops, hrounds⟩

end KLang
