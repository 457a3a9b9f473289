import KLang.Proofs.Parsing.Program
import KLang.Proofs.Rejection.Program

/-!
# Programs at other locations

Parsers choose by words and never by locations. So if every token is moved to another location, the
same tree is read with every node moved, or the same fault is found.

* `Expr.relocate`, `Statement.relocate`, `Block.relocate`: trees with every location changed by a
  function.
* `moved`: a reading with every location changed; `moved_bind` is the rule for one reading behind
  another.
* `parseProgram_relocate`: relocated tokens are read as the relocated program.
-/

namespace KLang

variable (f : Option Location → Option Location)

/-! ## Relocated trees -/

mutual

/-- The expression with its locations changed. -/
def Expr.relocate : Expr → Expr
  | .number l x => .number (f l) x
  | .string l text => .string (f l) text
  | .variable l name => .variable (f l) name
  | .unary l op e => .unary (f l) op (Expr.relocate e)
  | .binary l op e e' => .binary (f l) op (Expr.relocate e) (Expr.relocate e')
  | .step l op name => .step (f l) op name
  | .call l name es => .call (f l) name (Expr.relocateAll es)

/-- Expressions with their locations changed. -/
def Expr.relocateAll : List Expr → List Expr
  | [] => []
  | e :: es => Expr.relocate e :: Expr.relocateAll es

end

/-- The parameter with its location changed. -/
def Parameter.relocate (p : Parameter) : Parameter := { p with location := f p.location }

mutual

/-- The statement with its locations changed. -/
def Statement.relocate : Statement → Statement
  | .declare l kind name e => .declare (f l) kind name (e.relocate f)
  | .assign l l' target e => .assign (f l) (f l') target (e.relocate f)
  | .print l es => .print (f l) (Expr.relocateAll f es)
  | .branch l arms none => .branch (f l) (Arm.relocateAll arms) none
  | .branch l arms (some block) => .branch (f l) (Arm.relocateAll arms) (some (Block.relocate block))
  | .loop l condition body => .loop (f l) (condition.relocate f) (Block.relocate body)
  | .define l function => .define (f l) (Function.relocate function)
  | .returnValue l none => .returnValue (f l) none
  | .returnValue l (some e) => .returnValue (f l) (some (e.relocate f))
  | .importModule l name => .importModule (f l) name
  | .evaluate l e => .evaluate (f l) (e.relocate f)

/-- Statements with their locations changed. -/
def Statement.relocateAll : List Statement → List Statement
  | [] => []
  | s :: ss => Statement.relocate s :: Statement.relocateAll ss

/-- The block with its locations changed. -/
def Block.relocate : Block → Block
  | ⟨l, ss⟩ => ⟨f l, Statement.relocateAll ss⟩

/-- The arm with its locations changed. -/
def Arm.relocate : Arm → Arm
  | ⟨l, condition, body⟩ => ⟨f l, condition.relocate f, Block.relocate body⟩

/-- Arms with their locations changed. -/
def Arm.relocateAll : List Arm → List Arm
  | [] => []
  | arm :: arms => Arm.relocate arm :: Arm.relocateAll arms

/-- The function with its locations changed. -/
def Function.relocate : Function → Function
  | ⟨kind, name, parameters, body⟩ =>
    ⟨kind, name, parameters.map (Parameter.relocate f), Block.relocate body⟩

end

variable {f}

theorem Expr.exists_variable_of_relocate {e : Expr} {l : Option Location} {name : Name}
    (h : e.relocate f = .variable l name) : ∃ l, e = .variable l name := by
  cases e <;> cases h
  exact ⟨_, rfl⟩

theorem Statement.relocate_branch (l : Option Location) (arms : List Arm)
    (otherwise : Option Block) :
    (Statement.branch l arms otherwise).relocate f =
      .branch (f l) (Arm.relocateAll f arms) (otherwise.map (Block.relocate f)) := by
  cases otherwise <;> rfl

theorem Function.name_relocate (fn : Function) : (fn.relocate f).name = fn.name := by
  cases fn
  rfl

theorem Expr.location_relocate (e : Expr) : (e.relocate f).location = f e.location := by
  cases e <;> rfl

theorem Expr.length_relocateAll (es : List Expr) : (relocateAll f es).length = es.length := by
  induction es with
  | nil => rfl
  | cons e es ih => rw [relocateAll, List.length_cons, List.length_cons, ih]

/-! ## Relocated readings -/

/-- The token with its location changed. -/
def Token.relocate (f : Option Location → Option Location) (t : Token) : Token :=
  ⟨t.lexeme, f t.location⟩

theorem Token.lexeme_relocate (t : Token) : (t.relocate f).lexeme = t.lexeme := rfl

/-- The error with its locations changed. -/
def ParseError.relocate (f : Option Location → Option Location) (p : ParseError) : ParseError :=
  ⟨p.fault, f p.location, p.rest.map (Token.relocate f)⟩

/-- A reading with its locations changed, those of the tree by `g`. -/
def moved {α β : Type} (f : Option Location → Option Location) (g : α → β) :
    Except ParseError (α × List Token) → Except ParseError (β × List Token)
  | .ok (a, rest) => .ok (g a, rest.map (Token.relocate f))
  | .error p => .error (p.relocate f)

theorem moved_bind {α α' β β' : Type} {g : α → α'} {h : β → β'}
    {r' : Except ParseError (α' × List Token)} {r : Except ParseError (α × List Token)}
    {k' : α' × List Token → Except ParseError (β' × List Token)}
    {k : α × List Token → Except ParseError (β × List Token)} (hr : r' = moved f g r)
    (hk : ∀ a rest, r = .ok (a, rest) →
      k' (g a, rest.map (Token.relocate f)) = moved f h (k (a, rest))) :
    r' >>= k' = moved f h (r >>= k) := by
  subst hr
  cases r with
  | error p => rfl
  | ok q => exact hk q.1 q.2 rfl

variable {eof : Option Location} {mode : Mode}

theorem front_relocate (ts : List Token) : front (ts.map (Token.relocate f)) = front ts := by
  cases ts <;> rfl

theorem frontLocation_relocate (ts : List Token) :
    frontLocation (f eof) (ts.map (Token.relocate f)) = f (frontLocation eof ts) := by
  cases ts <;> rfl

theorem moved_failFront {α β : Type} (g : α → β) (fault : Option Lexeme → ParseFault)
    (ts : List Token) :
    failFront (f eof) fault (ts.map (Token.relocate f)) = moved f g (failFront eof fault ts) := by
  rw [failFront, front_relocate, frontLocation_relocate]
  rfl

/-! ### Single tokens -/

theorem moved_expect (s : Symbol) (ts : List Token) :
    outcome (expect (f eof) s (ts.map (Token.relocate f))) =
      moved f f (outcome (expect eof s ts)) := by
  cases ts with
  | nil => rfl
  | cons t ts =>
    obtain ⟨w, l⟩ := t
    cases w with
    | symbol s' =>
      rw [List.map_cons, Token.relocate]
      by_cases hs : s' = s
      · simp [expect, hs, moved]
      · simp [expect, hs, moved, failFront, front, frontLocation, ParseError.relocate,
          Token.relocate]
    | _ => rfl

theorem moved_expectName (ts : List Token) :
    outcome (expectName (f eof) (ts.map (Token.relocate f))) =
      moved f id (outcome (expectName eof ts)) := by
  cases ts with
  | nil => rfl
  | cons t ts =>
    obtain ⟨w, l⟩ := t
    cases w <;> rfl

theorem moved_expectKind (ts : List Token) :
    outcome (expectKind (f eof) (ts.map (Token.relocate f))) =
      moved f id (outcome (expectKind eof ts)) := by
  cases ts with
  | nil => rfl
  | cons t ts =>
    obtain ⟨w, l⟩ := t
    cases w with
    | keyword k => cases k <;> rfl
    | _ => rfl

/-! ### Expressions -/

mutual

theorem moved_parseAbove (mode : Mode) (bound : Precedence) (ts : List Token) :
    outcome (parseAbove (f eof) mode bound (ts.map (Token.relocate f))) =
      moved f (Expr.relocate f) (outcome (parseAbove eof mode bound ts)) := by
  rw [outcome_parseAbove, outcome_parseAbove]
  refine moved_bind (moved_parseOperand mode ts) fun operand rest hread => ?_
  have hlt := length_lt_of_outcome hread
  exact moved_parseFollowers mode bound operand rest
termination_by (ts.length, 1)

theorem moved_parseOperand (mode : Mode) (ts : List Token) :
    outcome (parseOperand (f eof) mode (ts.map (Token.relocate f))) =
      moved f (Expr.relocate f) (outcome (parseOperand eof mode ts)) := by
  match ts with
  | [] =>
    rw [List.map_nil, parseOperand, parseOperand]
    exact moved_failFront _ .expectedExpression []
  | ⟨.identifier name, l⟩ :: ts | ⟨.number _ _, l⟩ :: ts | ⟨.string _, l⟩ :: ts =>
    rw [List.map_cons, Token.relocate, parseOperand, parseOperand]
    rfl
  | ⟨.keyword k, l⟩ :: ts =>
    rw [List.map_cons, Token.relocate]
    simp [parseOperand, Lexeme.unary?, moved, failFront, front, frontLocation, ParseError.relocate,
      Token.relocate]
  | ⟨.symbol s, l⟩ :: ts =>
    by_cases hs : s = .lparen
    · subst hs
      rw [List.map_cons, Token.relocate, outcome_parseOperand_lparen, outcome_parseOperand_lparen]
      refine moved_bind (moved_parseAbove .plain .lowest ts) fun e rest _ => ?_
      exact moved_bind (moved_expect .rparen rest) fun _ _ _ => rfl
    · cases hw : (Lexeme.symbol s).unary? with
      | none =>
        rw [List.map_cons, Token.relocate, parseOperand, parseOperand]
        · simp [hw, Token.relocate, moved, failFront, front, frontLocation, ParseError.relocate]
        all_goals simp [hs]
      | some op =>
        rw [List.map_cons, Token.relocate, outcome_parseOperand_unary _ _ _ hw,
          outcome_parseOperand_unary _ _ _ hw]
        exact moved_bind (moved_parseAbove mode .prefixed ts) fun _ _ _ => rfl
termination_by (ts.length, 0)

theorem moved_parseFollowers (mode : Mode) (bound : Precedence) (left : Expr) (ts : List Token) :
    outcome (parseFollowers (f eof) mode bound (left.relocate f) (ts.map (Token.relocate f))) =
      moved f (Expr.relocate f) (outcome (parseFollowers eof mode bound left ts)) := by
  match ts with
  | [] =>
    rw [List.map_nil, parseFollowers, parseFollowers]
    rfl
  | t :: ts =>
    rw [List.map_cons, outcome_parseFollowers_cons, outcome_parseFollowers_cons,
      Token.lexeme_relocate]
    cases t.lexeme.follower? with
    | none => rfl
    | some follower =>
      dsimp only
      split
      · refine moved_bind (moved_parseFollower mode follower left t ts) fun e rest hread => ?_
        have hlt := length_lt_of_outcome hread
        exact moved_parseFollowers mode bound e rest
      · rfl
termination_by (ts.length, 0)

theorem moved_parseFollower (mode : Mode) (follower : Follower) (left : Expr) (word : Token)
    (ts : List Token) :
    outcome (parseFollower (f eof) mode follower (left.relocate f) (word.relocate f)
        (ts.map (Token.relocate f))) =
      moved f (Expr.relocate f) (outcome (parseFollower eof mode follower left word ts)) := by
  match follower with
  | .binary op =>
    rw [outcome_parseFollower_binary, outcome_parseFollower_binary]
    exact moved_bind (moved_parseAbove mode op.rightBound ts) fun _ _ _ => rfl
  | .call =>
    by_cases hleft : ∃ l callee, left = .variable l callee
    · obtain ⟨l, callee, rfl⟩ := hleft
      rw [Expr.relocate, outcome_parseFollower_call, outcome_parseFollower_call]
      exact moved_bind (moved_parseItems .plain .comma ts) fun _ _ _ => rfl
    · rw [parseFollower_call_of_ne hleft, parseFollower_call_of_ne]
      · rfl
      · rintro ⟨l, callee, h⟩
        obtain ⟨l', h'⟩ := Expr.exists_variable_of_relocate h
        exact hleft ⟨l', callee, h'⟩
  | .member =>
    by_cases hleft : ∃ l name, left = .variable l ⟨none, name⟩
    · obtain ⟨l, name, rfl⟩ := hleft
      rw [Expr.relocate, outcome_parseFollower_member, outcome_parseFollower_member]
      exact moved_bind (moved_expectName ts) fun _ _ _ => rfl
    · rw [parseFollower_member_of_ne hleft, parseFollower_member_of_ne]
      · rfl
      · rintro ⟨l, name, h⟩
        obtain ⟨l', h'⟩ := Expr.exists_variable_of_relocate h
        exact hleft ⟨l', name, h'⟩
  | .step op =>
    by_cases hleft : ∃ l name, left = .variable l ⟨none, name⟩
    · obtain ⟨l, name, rfl⟩ := hleft
      rw [Expr.relocate, outcome_parseFollower_step, outcome_parseFollower_step]
      rfl
    · rw [parseFollower_step_of_ne op hleft, parseFollower_step_of_ne op]
      · rfl
      · rintro ⟨l, name, h⟩
        obtain ⟨l', h'⟩ := Expr.exists_variable_of_relocate h
        exact hleft ⟨l', name, h'⟩
termination_by (ts.length, 3)

theorem moved_parseItems (mode : Mode) (separator : Symbol) (ts : List Token) :
    outcome (parseItems (f eof) mode separator (ts.map (Token.relocate f))) =
      moved f (Expr.relocateAll f) (outcome (parseItems eof mode separator ts)) := by
  by_cases hend : front ts = some (.symbol .rparen)
  · obtain ⟨r, ts, rfl⟩ := front_eq_some.mp hend
    rw [List.map_cons, Token.relocate, outcome_parseItems_rparen, outcome_parseItems_rparen]
    rfl
  · rw [outcome_parseItems _ hend, outcome_parseItems _ (by rwa [front_relocate])]
    refine moved_bind (moved_parseAbove mode .lowest ts) fun e rest hread => ?_
    have hlt := length_lt_of_outcome hread
    exact moved_bind (moved_parseMoreItems mode separator rest) fun _ _ _ => rfl
termination_by (ts.length, 2)

theorem moved_parseMoreItems (mode : Mode) (separator : Symbol) (ts : List Token) :
    outcome (parseMoreItems (f eof) mode separator (ts.map (Token.relocate f))) =
      moved f (Expr.relocateAll f) (outcome (parseMoreItems eof mode separator ts)) := by
  by_cases hend : front ts = some (.symbol .rparen)
  · obtain ⟨r, ts, rfl⟩ := front_eq_some.mp hend
    rw [List.map_cons, Token.relocate, outcome_parseMoreItems_rparen, outcome_parseMoreItems_rparen]
    rfl
  · rw [outcome_parseMoreItems _ hend, outcome_parseMoreItems _ (by rwa [front_relocate])]
    refine moved_bind (moved_expect separator ts) fun _ rest hread => ?_
    have hlt := length_lt_of_outcome hread
    refine moved_bind (moved_parseAbove mode .lowest rest) fun e rest hread => ?_
    have hlt := length_lt_of_outcome hread
    exact moved_bind (moved_parseMoreItems mode separator rest) fun _ _ _ => rfl
termination_by (ts.length, 0)

end

theorem moved_parseExpr (mode : Mode) (ts : List Token) :
    outcome (parseExpr (f eof) mode (ts.map (Token.relocate f))) =
      moved f (Expr.relocate f) (outcome (parseExpr eof mode ts)) :=
  moved_parseAbove mode .lowest ts

/-! ### Statements without blocks -/

theorem moved_parseDeclaration (l : Option Location) (kind : Kind) (ts : List Token) :
    outcome (parseDeclaration (f eof) (f l) kind (ts.map (Token.relocate f))) =
      moved f (Statement.relocate f) (outcome (parseDeclaration eof l kind ts)) := by
  rw [outcome_parseDeclaration, outcome_parseDeclaration]
  refine moved_bind (moved_expectName ts) fun name rest _ => ?_
  refine moved_bind (moved_expect .assign rest) fun _ rest _ => ?_
  refine moved_bind (moved_parseExpr .plain rest) fun value rest _ => ?_
  exact moved_bind (moved_expect .semicolon rest) fun _ _ _ => rfl

theorem moved_parsePrint (l : Option Location) (ts : List Token) :
    outcome (parsePrint (f eof) (f l) (ts.map (Token.relocate f))) =
      moved f (Statement.relocate f) (outcome (parsePrint eof l ts)) := by
  rw [outcome_parsePrint, outcome_parsePrint]
  refine moved_bind (moved_expect .lparen ts) fun _ rest _ => ?_
  refine moved_bind (moved_parseItems .items .add rest) fun items rest _ => ?_
  exact moved_bind (moved_expect .semicolon rest) fun _ _ _ => rfl

theorem moved_parseReturn (l : Option Location) (ts : List Token) :
    outcome (parseReturn (f eof) (f l) (ts.map (Token.relocate f))) =
      moved f (Statement.relocate f) (outcome (parseReturn eof l ts)) := by
  by_cases hend : front ts = some (.symbol .semicolon)
  · obtain ⟨r, ts, rfl⟩ := front_eq_some.mp hend
    rfl
  · rw [outcome_parseReturn _ hend, outcome_parseReturn _ (by rwa [front_relocate])]
    refine moved_bind (moved_parseExpr .plain ts) fun value rest _ => ?_
    exact moved_bind (moved_expect .semicolon rest) fun _ _ _ => rfl

theorem moved_parseImport (l : Option Location) (ts : List Token) :
    outcome (parseImport (f eof) (f l) (ts.map (Token.relocate f))) =
      moved f (Statement.relocate f) (outcome (parseImport eof l ts)) := by
  rw [outcome_parseImport, outcome_parseImport]
  refine moved_bind (moved_expectName ts) fun name rest _ => ?_
  exact moved_bind (moved_expect .semicolon rest) fun _ _ _ => rfl

theorem moved_parseAssigned (l : Option Location) (e : Expr) (ts : List Token) :
    outcome (parseAssigned (f eof) (f l) (e.relocate f) (ts.map (Token.relocate f))) =
      moved f (Statement.relocate f) (outcome (parseAssigned eof l e ts)) := by
  match e with
  | .variable l' target =>
    rw [Expr.relocate, outcome_parseAssigned, outcome_parseAssigned]
    refine moved_bind (moved_expect .assign ts) fun _ rest _ => ?_
    refine moved_bind (moved_parseExpr .plain rest) fun value rest _ => ?_
    exact moved_bind (moved_expect .semicolon rest) fun _ _ _ => rfl
  | .number .. | .string .. | .unary .. | .binary .. | .step .. | .call .. =>
    exact moved_failFront _ (fun _ => .assignmentTarget) ts

theorem moved_parseSimple (l : Option Location) (ts : List Token) :
    outcome (parseSimple (f eof) (f l) (ts.map (Token.relocate f))) =
      moved f (Statement.relocate f) (outcome (parseSimple eof l ts)) := by
  rw [outcome_parseSimple, outcome_parseSimple]
  refine moved_bind (moved_parseExpr .plain ts) fun e rest _ => ?_
  dsimp only
  rw [front_relocate]
  split
  · exact moved_parseAssigned l e rest
  · exact moved_bind (moved_expect .semicolon rest) fun _ _ _ => rfl

/-! ### Parameters and conditions -/

theorem moved_parseParameter (seen : List String) (ts : List Token) :
    outcome (parseParameter (f eof) seen (ts.map (Token.relocate f))) =
      moved f (Parameter.relocate f) (outcome (parseParameter eof seen ts)) := by
  rw [outcome_parseParameter, outcome_parseParameter, frontLocation_relocate]
  refine moved_bind (moved_expectKind ts) fun kind rest _ => ?_
  refine moved_bind (moved_expectName rest) fun name rest _ => ?_
  dsimp only [id]
  split <;> rfl

theorem moved_parseMoreParameters (seen : List String) (ts : List Token) :
    outcome (parseMoreParameters (f eof) seen (ts.map (Token.relocate f))) =
      moved f (List.map (Parameter.relocate f)) (outcome (parseMoreParameters eof seen ts)) := by
  by_cases hend : front ts = some (.symbol .rparen)
  · obtain ⟨r, ts, rfl⟩ := front_eq_some.mp hend
    rw [List.map_cons, Token.relocate, parseMoreParameters_rparen, parseMoreParameters_rparen]
    rfl
  · rw [outcome_parseMoreParameters hend, outcome_parseMoreParameters (by rwa [front_relocate])]
    refine moved_bind (moved_expect .comma ts) fun _ rest hread => ?_
    have hlt := length_lt_of_outcome hread
    refine moved_bind (moved_parseParameter seen rest) fun p rest hread => ?_
    have hlt' := length_lt_of_outcome hread
    exact moved_bind (moved_parseMoreParameters (p.name :: seen) rest) fun _ _ _ => rfl
termination_by ts.length

theorem moved_parseParameters (ts : List Token) :
    outcome (parseParameters (f eof) (ts.map (Token.relocate f))) =
      moved f (List.map (Parameter.relocate f)) (outcome (parseParameters eof ts)) := by
  by_cases hend : front ts = some (.symbol .rparen)
  · obtain ⟨r, ts, rfl⟩ := front_eq_some.mp hend
    rfl
  · rw [outcome_parseParameters hend, outcome_parseParameters (by rwa [front_relocate])]
    refine moved_bind (moved_parseParameter [] ts) fun p rest _ => ?_
    exact moved_bind (moved_parseMoreParameters [p.name] rest) fun _ _ _ => rfl

theorem moved_parseCondition (ts : List Token) :
    outcome (parseCondition (f eof) (ts.map (Token.relocate f))) =
      moved f (Expr.relocate f) (outcome (parseCondition eof ts)) := by
  rw [outcome_parseCondition, outcome_parseCondition]
  refine moved_bind (moved_expect .lparen ts) fun _ rest _ => ?_
  refine moved_bind (moved_parseExpr .plain rest) fun e rest _ => ?_
  exact moved_bind (moved_expect .rparen rest) fun _ _ _ => rfl

/-- The kind, name and parameters of a function, with the locations of the parameters changed. -/
def relocateHeader (f : Option Location → Option Location)
    (header : Kind × String × List Parameter) : Kind × String × List Parameter :=
  (header.1, header.2.1, header.2.2.map (Parameter.relocate f))

theorem moved_headerBehind (kind : Kind) (ts : List Token) :
    headerBehind (f eof) kind (ts.map (Token.relocate f)) =
      moved f (relocateHeader f) (headerBehind eof kind ts) := by
  refine moved_bind (moved_expectName ts) fun name rest _ => ?_
  refine moved_bind (moved_expect .lparen rest) fun _ rest _ => ?_
  exact moved_bind (moved_parseParameters rest) fun _ _ _ => rfl

theorem moved_parseHeader (ts : List Token) :
    outcome (parseHeader (f eof) (ts.map (Token.relocate f))) =
      moved f (relocateHeader f) (outcome (parseHeader eof ts)) := by
  by_cases hkind : ∃ kind, front ts = some (.keyword (.kind kind))
  · obtain ⟨kind, hkind⟩ := hkind
    obtain ⟨l, ts, rfl⟩ := front_eq_some.mp hkind
    rw [List.map_cons, Token.relocate, outcome_parseHeader_given, outcome_parseHeader_given]
    exact moved_headerBehind kind ts
  · have habsent : ∀ kind, front ts ≠ some (.keyword (.kind kind)) :=
      fun kind h => hkind ⟨kind, h⟩
    rw [outcome_parseHeader_absent habsent,
      outcome_parseHeader_absent (by simpa only [front_relocate])]
    exact moved_headerBehind .var ts

/-! ### Statements with blocks -/

mutual

theorem moved_parseStatement (ts : List Token) :
    outcome (parseStatement (f eof) (ts.map (Token.relocate f))) =
      moved f (Statement.relocate f) (outcome (parseStatement eof ts)) := by
  match ts with
  | ⟨.keyword (.kind kind), l⟩ :: ts =>
    rw [List.map_cons, Token.relocate, outcome_parseStatement_kind, outcome_parseStatement_kind]
    exact moved_parseDeclaration l kind ts
  | ⟨.keyword .printWord, l⟩ :: ts =>
    rw [List.map_cons, Token.relocate, outcome_parseStatement_print, outcome_parseStatement_print]
    exact moved_parsePrint l ts
  | ⟨.keyword .ifWord, l⟩ :: ts =>
    rw [List.map_cons, Token.relocate, outcome_parseStatement_if, outcome_parseStatement_if]
    refine moved_bind (moved_parseArm l ts) fun arm rest hread => ?_
    have hlt := length_lt_of_outcome hread
    refine moved_bind (moved_parseArms rest) fun arms rest hread => ?_
    have hlt := length_lt_of_outcome hread
    refine moved_bind (moved_parseElse rest) fun otherwise rest _ => ?_
    exact congrArg (fun s => Except.ok (s, _)) (Statement.relocate_branch l (arm :: arms) otherwise).symm
  | ⟨.keyword .whileWord, l⟩ :: ts =>
    rw [List.map_cons, Token.relocate, outcome_parseStatement_while, outcome_parseStatement_while]
    refine moved_bind (moved_parseCondition ts) fun condition rest hread => ?_
    have hlt := length_lt_of_outcome hread
    exact moved_bind (moved_parseBlock rest) fun _ _ _ => rfl
  | ⟨.keyword .funWord, l⟩ :: ts =>
    rw [List.map_cons, Token.relocate, outcome_parseStatement_fun, outcome_parseStatement_fun]
    refine moved_bind (moved_parseHeader ts) fun header rest hread => ?_
    have hlt := length_lt_of_outcome hread
    exact moved_bind (moved_parseBlock rest) fun _ _ _ => rfl
  | ⟨.keyword .returnWord, l⟩ :: ts =>
    rw [List.map_cons, Token.relocate, outcome_parseStatement_return, outcome_parseStatement_return]
    exact moved_parseReturn l ts
  | ⟨.keyword .importWord, l⟩ :: ts =>
    rw [List.map_cons, Token.relocate, outcome_parseStatement_import, outcome_parseStatement_import]
    exact moved_parseImport l ts
  | ⟨.identifier name, l⟩ :: ts =>
    rw [List.map_cons, Token.relocate, outcome_parseStatement_identifier,
      outcome_parseStatement_identifier]
    exact moved_parseSimple l (⟨.identifier name, l⟩ :: ts)
  | [] | ⟨.number .., _⟩ :: _ | ⟨.string _, _⟩ :: _ | ⟨.symbol _, _⟩ :: _
  | ⟨.keyword .elifWord, _⟩ :: _ | ⟨.keyword .elseWord, _⟩ :: _ | ⟨.keyword .xorWord, _⟩ :: _ =>
    rw [outcome_parseStatement_of_not_starts, outcome_parseStatement_of_not_starts]
    · exact moved_failFront _ .unexpectedToken _
    all_goals simp [Token.relocate, Lexeme.startsStatement]
termination_by (ts.length, 0)

theorem moved_parseArm (l : Option Location) (ts : List Token) :
    outcome (parseArm (f eof) (f l) (ts.map (Token.relocate f))) =
      moved f (Arm.relocate f) (outcome (parseArm eof l ts)) := by
  rw [outcome_parseArm, outcome_parseArm]
  refine moved_bind (moved_parseCondition ts) fun condition rest hread => ?_
  have hlt := length_lt_of_outcome hread
  exact moved_bind (moved_parseBlock rest) fun _ _ _ => rfl
termination_by (ts.length, 1)

theorem moved_parseArms (ts : List Token) :
    outcome (parseArms (f eof) (ts.map (Token.relocate f))) =
      moved f (Arm.relocateAll f) (outcome (parseArms eof ts)) := by
  by_cases helif : front ts = some (.keyword .elifWord)
  · obtain ⟨l, ts, rfl⟩ := front_eq_some.mp helif
    rw [List.map_cons, Token.relocate, outcome_parseArms_elif, outcome_parseArms_elif]
    refine moved_bind (moved_parseArm l ts) fun arm rest hread => ?_
    have hlt := Nat.lt_succ_of_lt (length_lt_of_outcome hread)
    exact moved_bind (moved_parseArms rest) fun _ _ _ => rfl
  · rw [outcome_parseArms_none _ helif, outcome_parseArms_none _ (by rwa [front_relocate])]
    rfl
termination_by (ts.length, 0)

theorem moved_parseElse (ts : List Token) :
    outcome (parseElse (f eof) (ts.map (Token.relocate f))) =
      moved f (Option.map (Block.relocate f)) (outcome (parseElse eof ts)) := by
  by_cases helse : front ts = some (.keyword .elseWord)
  · obtain ⟨l, ts, rfl⟩ := front_eq_some.mp helse
    rw [List.map_cons, Token.relocate, outcome_parseElse_else, outcome_parseElse_else]
    exact moved_bind (moved_parseBlock ts) fun _ _ _ => rfl
  · rw [outcome_parseElse_none _ helse, outcome_parseElse_none _ (by rwa [front_relocate])]
    rfl
termination_by (ts.length, 0)

theorem moved_parseBlock (ts : List Token) :
    outcome (parseBlock (f eof) (ts.map (Token.relocate f))) =
      moved f (Block.relocate f) (outcome (parseBlock eof ts)) := by
  rw [outcome_parseBlock, outcome_parseBlock]
  refine moved_bind (moved_expect .lbrace ts) fun l rest hread => ?_
  have hlt := length_lt_of_outcome hread
  refine moved_bind (moved_parseStatements rest) fun ss rest _ => ?_
  exact moved_bind (moved_expect .rbrace rest) fun _ _ _ => rfl
termination_by (ts.length, 0)

theorem moved_parseStatements (ts : List Token) :
    outcome (parseStatements (f eof) (ts.map (Token.relocate f))) =
      moved f (Statement.relocateAll f) (outcome (parseStatements eof ts)) := by
  by_cases hend : front ts = none ∨ front ts = some (.symbol .rbrace)
  · rw [outcome_parseStatements_end _ hend, outcome_parseStatements_end _ (by rwa [front_relocate])]
    rfl
  · rw [outcome_parseStatements _ hend, outcome_parseStatements _ (by rwa [front_relocate])]
    refine moved_bind (moved_parseStatement ts) fun s rest hread => ?_
    have hlt := length_lt_of_outcome hread
    exact moved_bind (moved_parseStatements rest) fun _ _ _ => rfl
termination_by (ts.length, 1)

end

/-! ### Programs -/

theorem moved_readAll (ts : List Token) :
    readAll (f eof) (ts.map (Token.relocate f)) =
      moved f (Statement.relocateAll f) (readAll eof ts) := by
  match ts with
  | [] =>
    simp only [List.map_nil, readAll, parseAll]
    rfl
  | t :: ts =>
    rw [List.map_cons, readAll_cons, readAll_cons, ← List.map_cons]
    refine moved_bind (moved_parseStatement (t :: ts)) fun s rest hread => ?_
    have hlt := length_lt_of_outcome hread
    exact moved_bind (moved_readAll rest) fun _ _ _ => rfl
termination_by ts.length
decreasing_by exact hlt

/-- Relocated tokens are read as the relocated program, or the same fault is found at the relocated
token. -/
theorem parseProgram_relocate (ts : List Token) :
    parseProgram (f eof) (ts.map (Token.relocate f)) =
      ((parseProgram eof ts).map (Block.relocate f)).mapError (ParseError.relocate f) := by
  have hread : readAll (f eof) (ts.map (Token.relocate f)) =
      moved f (Statement.relocateAll f) (readAll eof ts) := moved_readAll ts
  rw [readAll, readAll] at hread
  rw [parseProgram, parseProgram, frontLocation_relocate]
  cases h : parseAll eof ts with
  | error p =>
    rw [h] at hread
    cases h' : parseAll (f eof) (ts.map (Token.relocate f)) with
    | error p' =>
      rw [h'] at hread
      cases hread
      rfl
    | ok ss =>
      rw [h'] at hread
      cases hread
  | ok ss =>
    rw [h] at hread
    cases h' : parseAll (f eof) (ts.map (Token.relocate f)) with
    | error p' =>
      rw [h'] at hread
      cases hread
    | ok ss' =>
      rw [h'] at hread
      cases hread
      rfl

end KLang
