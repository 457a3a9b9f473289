import KLang.Program.Expression
import KLang.Token.Lexer

/-!
# Reading statements

* `parseStatement`: one statement, told apart from the others by its first word.
* `parseBlock`: statements in braces.
* `parseProgram`: statements up to the end of the tokens.
* `Program.ofTokens`: the program of a text that has been split into tokens; where splitting the
  text failed and the parser needed a token from there, the failure is the lexical one.
-/

namespace KLang

/-- A program is a block without braces. -/
abbrev Program := Block

variable (eof : Option Location)

/-! ## Statements without blocks -/

/-- The rest of a declaration behind its kind. -/
def parseDeclaration (location : Option Location) (kind : Kind) (ts : List Token) :
    ParseResult Statement ts.length := do
  let ⟨name, rest, h⟩ ← expectName eof ts
  let ⟨_, rest, h'⟩ ← expect eof .assign rest
  let ⟨value, rest, h''⟩ ← parseExpr eof .plain rest
  let ⟨_, rest, h'''⟩ ← expect eof .semicolon rest
  return ⟨.declare location kind name value, rest, length_lt_trans₄ h h' h'' h'''⟩

/-- The rest of a print statement behind its first word. -/
def parsePrint (location : Option Location) (ts : List Token) :
    ParseResult Statement ts.length := do
  let ⟨_, rest, h⟩ ← expect eof .lparen ts
  let ⟨items, rest, h'⟩ ← parseItems eof .items .add rest
  let ⟨_, rest, h''⟩ ← expect eof .semicolon rest
  return ⟨.print location items, rest, length_lt_trans₃ h h' h''⟩

/-- The rest of a return statement behind its first word. -/
def parseReturn (location : Option Location) (ts : List Token) : ParseResult Statement ts.length :=
  match ts with
  | ⟨.symbol .semicolon, _⟩ :: rest =>
    return ⟨.returnValue location none, rest, length_lt_succ rest⟩
  | ts => do
    let ⟨value, rest, h⟩ ← parseExpr eof .plain ts
    let ⟨_, rest, h'⟩ ← expect eof .semicolon rest
    return ⟨.returnValue location (some value), rest, length_lt_trans h h'⟩

/-- The rest of an import behind its first word. -/
def parseImport (location : Option Location) (ts : List Token) :
    ParseResult Statement ts.length := do
  let ⟨name, rest, h⟩ ← expectName eof ts
  let ⟨_, rest, h'⟩ ← expect eof .semicolon rest
  return ⟨.importModule location name, rest, length_lt_trans h h'⟩

/-- The rest of an assignment behind its target, of which `target` was read. -/
def parseAssigned (location : Option Location) (target : Expr) (ts : List Token) :
    ParseResult Statement ts.length :=
  match target with
  | .variable targetLocation name => do
    let ⟨_, rest, h⟩ ← expect eof .assign ts
    let ⟨value, rest, h'⟩ ← parseExpr eof .plain rest
    let ⟨_, rest, h''⟩ ← expect eof .semicolon rest
    return ⟨.assign location targetLocation name value, rest, length_lt_trans₃ h h' h''⟩
  | _ => failFront eof (fun _ => .assignmentTarget) ts

/-- An expression or an assignment as a statement. -/
def parseSimple (location : Option Location) (ts : List Token) :
    ParseResult Statement ts.length := do
  let ⟨e, rest, h⟩ ← parseExpr eof .plain ts
  if front rest = some (.symbol .assign) then
    let s ← parseAssigned eof location e rest
    return s.weaken (Nat.le_of_lt h)
  else
    let ⟨_, rest, h'⟩ ← expect eof .semicolon rest
    return ⟨.evaluate location e, rest, length_lt_trans h h'⟩

/-! ## Parameters and conditions -/

/-- A parameter, whose name must differ from the names before it. -/
def parseParameter (seen : List String) (ts : List Token) : ParseResult Parameter ts.length := do
  let ⟨kind, rest, h⟩ ← expectKind eof ts
  let ⟨name, rest, h'⟩ ← expectName eof rest
  let location := frontLocation eof ts
  if name ∈ seen then .error ⟨.duplicateParameter name, location, rest⟩
  else return ⟨⟨location, kind, name⟩, rest, length_lt_trans h h'⟩

/-- The parameters up to a `)`, each behind a comma. -/
def parseMoreParameters (seen : List String) (ts : List Token) :
    ParseResult (List Parameter) ts.length :=
  match ts with
  | ⟨.symbol .rparen, _⟩ :: rest => return ⟨[], rest, length_lt_succ rest⟩
  | ts => do
    let ⟨_, rest, h⟩ ← expect eof .comma ts
    let ⟨p, rest, h'⟩ ← parseParameter eof seen rest
    let ⟨ps, rest, h''⟩ ← parseMoreParameters (p.name :: seen) rest
    return ⟨p :: ps, rest, length_lt_trans₃ h h' h''⟩
termination_by ts.length

/-- The parameters up to a `)`, with commas between them. -/
def parseParameters (ts : List Token) : ParseResult (List Parameter) ts.length :=
  match ts with
  | ⟨.symbol .rparen, _⟩ :: rest => return ⟨[], rest, length_lt_succ rest⟩
  | ts => do
    let ⟨p, rest, h⟩ ← parseParameter eof [] ts
    let ⟨ps, rest, h'⟩ ← parseMoreParameters eof [p.name] rest
    return ⟨p :: ps, rest, length_lt_trans h h'⟩

/-- A condition in parentheses. -/
def parseCondition (ts : List Token) : ParseResult Expr ts.length := do
  let ⟨_, rest, h⟩ ← expect eof .lparen ts
  let ⟨e, rest, h'⟩ ← parseExpr eof .plain rest
  let ⟨_, rest, h''⟩ ← expect eof .rparen rest
  return ⟨e, rest, length_lt_trans₃ h h' h''⟩

/-- The kind, name and parameters of a function; without a kind it is `var`. -/
def parseHeader (ts : List Token) : ParseResult (Kind × String × List Parameter) ts.length := do
  let ⟨kind, rest, h⟩ : Parsed Kind (ts.length + 1) :=
    match ts with
    | ⟨.keyword (.kind k), _⟩ :: rest => ⟨k, rest, by simp only [List.length_cons]; omega⟩
    | ts => ⟨.var, ts, length_lt_succ ts⟩
  let ⟨name, rest, h'⟩ ← expectName eof rest
  let ⟨_, rest, h''⟩ ← expect eof .lparen rest
  let ⟨parameters, rest, h'''⟩ ← parseParameters eof rest
  return ⟨(kind, name, parameters), rest, by omega⟩

/-! ## Statements with blocks -/

mutual

/-- A statement. -/
def parseStatement (ts : List Token) : ParseResult Statement ts.length :=
  match ts with
  | ⟨.keyword (.kind kind), location⟩ :: rest => do
    let s ← parseDeclaration eof location kind rest
    return s.weaken (Nat.le_succ _)
  | ⟨.keyword .printWord, location⟩ :: rest => do
    let s ← parsePrint eof location rest
    return s.weaken (Nat.le_succ _)
  | ⟨.keyword .ifWord, location⟩ :: rest => do
    let ⟨arm, rest, h⟩ ← parseArm location rest
    let ⟨arms, rest, h'⟩ ← parseArms rest
    let ⟨otherwise, rest, h''⟩ ← parseElse rest
    return ⟨.branch location (arm :: arms) otherwise, rest, by
      simp only [List.length_cons]; omega⟩
  | ⟨.keyword .whileWord, location⟩ :: rest => do
    let ⟨condition, rest, h⟩ ← parseCondition eof rest
    let ⟨body, rest, h'⟩ ← parseBlock rest
    return ⟨.loop location condition body, rest, by simp only [List.length_cons]; omega⟩
  | ⟨.keyword .funWord, location⟩ :: rest => do
    let ⟨(kind, name, parameters), rest, h⟩ ← parseHeader eof rest
    let ⟨body, rest, h'⟩ ← parseBlock rest
    return ⟨.define location ⟨kind, name, parameters, body⟩, rest, by
      simp only [List.length_cons]; omega⟩
  | ⟨.keyword .returnWord, location⟩ :: rest => do
    let s ← parseReturn eof location rest
    return s.weaken (Nat.le_succ _)
  | ⟨.keyword .importWord, location⟩ :: rest => do
    let s ← parseImport eof location rest
    return s.weaken (Nat.le_succ _)
  | ⟨.identifier name, location⟩ :: rest =>
    parseSimple eof location (⟨.identifier name, location⟩ :: rest)
  | ts => failFront eof .unexpectedToken ts
termination_by (ts.length, 0)

/-- A condition and its block, behind the `if` or `elif` at the given location. -/
def parseArm (location : Option Location) (ts : List Token) : ParseResult Arm ts.length := do
  let ⟨condition, rest, h⟩ ← parseCondition eof ts
  let ⟨body, rest, h'⟩ ← parseBlock rest
  return ⟨⟨location, condition, body⟩, rest, by omega⟩
termination_by (ts.length, 1)

/-- The `elif` arms at the front of tokens. -/
def parseArms (ts : List Token) : ParseResult (List Arm) (ts.length + 1) :=
  match ts with
  | ⟨.keyword .elifWord, location⟩ :: rest => do
    let ⟨arm, rest, h⟩ ← parseArm location rest
    let ⟨arms, rest, h'⟩ ← parseArms rest
    return ⟨arm :: arms, rest, by simp only [List.length_cons]; omega⟩
  | ts => return ⟨[], ts, Nat.lt_succ_self _⟩
termination_by (ts.length, 0)

/-- The `else` block at the front of tokens, if there is one. -/
def parseElse (ts : List Token) : ParseResult (Option Block) (ts.length + 1) :=
  match ts with
  | ⟨.keyword .elseWord, _⟩ :: rest => do
    let ⟨block, rest, h⟩ ← parseBlock rest
    return ⟨some block, rest, by simp only [List.length_cons]; omega⟩
  | ts => return ⟨none, ts, Nat.lt_succ_self _⟩
termination_by (ts.length, 0)

/-- Statements in braces. -/
def parseBlock (ts : List Token) : ParseResult Block ts.length := do
  let ⟨location, rest, h⟩ ← expect eof .lbrace ts
  let ⟨statements, rest, h'⟩ ← parseStatements rest
  let ⟨_, rest, h''⟩ ← expect eof .rbrace rest
  return ⟨⟨location, statements⟩, rest, by omega⟩
termination_by (ts.length, 0)

/-- Statements up to a `}` or the end of the tokens. -/
def parseStatements (ts : List Token) : ParseResult (List Statement) (ts.length + 1) :=
  if front ts = none ∨ front ts = some (.symbol .rbrace) then
    return ⟨[], ts, Nat.lt_succ_self _⟩
  else do
    let ⟨s, rest, h⟩ ← parseStatement ts
    let ⟨ss, rest, h'⟩ ← parseStatements rest
    return ⟨s :: ss, rest, by omega⟩
termination_by (ts.length, 1)

end

/-! ## Programs -/

/-- The statements that the tokens consist of. -/
def parseAll (ts : List Token) : Except ParseError (List Statement) :=
  match ts with
  | [] => return []
  | t :: ts => do
    let ⟨s, rest, _h⟩ ← parseStatement eof (t :: ts)
    return s :: (← parseAll rest)
termination_by ts.length
decreasing_by simpa using _h

/-- The program that the tokens consist of. -/
def parseProgram (ts : List Token) : Except ParseError Program := do
  let statements ← parseAll eof ts
  return ⟨frontLocation eof ts, statements⟩

/-- Why a text is not a program. -/
inductive SyntaxError where
  | lexical (error : LexError)
  | parse (error : ParseError)
  deriving DecidableEq

/--
The program of a text. If the text is broken, the parser's error counts only if it was noticed
before the end of the words.
-/
def Program.ofTokens (ts : Tokens) : Except SyntaxError Program :=
  match ts.ending with
  | .complete eof => (parseProgram eof ts.words).mapError .parse
  | .broken e =>
    match parseProgram e.location ts.words with
    | .ok _ => .error (.lexical e)
    | .error p => .error (if p.rest = [] then .lexical e else .parse p)

/-- The program of a text that begins at the given location. -/
def Program.ofText (source : String) (location : Option Location) : Except SyntaxError Program :=
  Program.ofTokens (Tokens.ofText source location)

end KLang
