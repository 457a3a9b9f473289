import KLang.Proofs.Parsing.Statement
import KLang.Proofs.Switch.Expression

/-!
# Statements read with a switch

Only a print statement sets the switch, for its list. All other readings rely on it to stand in
plain mode.

* `Reading.parseStatement`, `Reading.parseBlock`, `Reading.parseProgram`: statements, blocks and
  programs.
* `agrees_parseProgram`: programs are read as by the parser that is told its mode, and the switch
  always stands right.
-/

namespace KLang

variable (eof : Option Location)

namespace Reading

/-! ## Statements without blocks -/

/-- The rest of a declaration behind its kind. -/
def parseDeclaration (location : Option Location) (kind : Kind) (ts : List Token) :
    Reading (Parsed Statement ts.length) := do
  let ⟨name, rest, h⟩ ← ofExcept (expectName eof ts)
  let ⟨_, rest, h'⟩ ← ofExcept (expect eof .assign rest)
  let ⟨value, rest, h''⟩ ← parseAbove eof .lowest rest
  let ⟨_, rest, h'''⟩ ← ofExcept (expect eof .semicolon rest)
  return ⟨.declare location kind name value, rest, length_lt_trans₄ h h' h'' h'''⟩

/-- The rest of a print statement behind its first word. The switch is set for the list only. -/
def parsePrint (location : Option Location) (ts : List Token) :
    Reading (Parsed Statement ts.length) := do
  let ⟨_, rest, h⟩ ← ofExcept (expect eof .lparen ts)
  let list ← switched .items (parseList eof .add rest)
  let ⟨items, rest, h'⟩ ← ofExcept (closing eof list)
  let ⟨_, rest, h''⟩ ← ofExcept (expect eof .semicolon rest)
  return ⟨.print location items, rest, length_lt_trans₃ h h' h''⟩

/-- The rest of a return statement behind its first word. -/
def parseReturn (location : Option Location) (ts : List Token) :
    Reading (Parsed Statement ts.length) :=
  match ts with
  | ⟨.symbol .semicolon, _⟩ :: rest =>
    return ⟨.returnValue location none, rest, length_lt_succ rest⟩
  | ts => do
    let ⟨value, rest, h⟩ ← parseAbove eof .lowest ts
    let ⟨_, rest, h'⟩ ← ofExcept (expect eof .semicolon rest)
    return ⟨.returnValue location (some value), rest, length_lt_trans h h'⟩

/-- The rest of an assignment behind its target, of which `target` was read. -/
def parseAssigned (location : Option Location) (target : Expr) (ts : List Token) :
    Reading (Parsed Statement ts.length) :=
  match target with
  | .variable targetLocation name => do
    let ⟨_, rest, h⟩ ← ofExcept (expect eof .assign ts)
    let ⟨value, rest, h'⟩ ← parseAbove eof .lowest rest
    let ⟨_, rest, h''⟩ ← ofExcept (expect eof .semicolon rest)
    return ⟨.assign location targetLocation name value, rest, length_lt_trans₃ h h' h''⟩
  | _ => ofExcept (failFront eof (fun _ => .assignmentTarget) ts)

/-- An expression or an assignment as a statement. -/
def parseSimple (location : Option Location) (ts : List Token) :
    Reading (Parsed Statement ts.length) := do
  let ⟨e, rest, h⟩ ← parseAbove eof .lowest ts
  if front rest = some (.symbol .assign) then
    let ⟨s, rest, h'⟩ ← parseAssigned eof location e rest
    return ⟨s, rest, length_lt_trans h h'⟩
  else
    let ⟨_, rest, h'⟩ ← ofExcept (expect eof .semicolon rest)
    return ⟨.evaluate location e, rest, length_lt_trans h h'⟩

/-- A condition in parentheses. -/
def parseCondition (ts : List Token) : Reading (Parsed Expr ts.length) := do
  visit .condition ts
  let ⟨_, rest, h⟩ ← ofExcept (expect eof .lparen ts)
  let ⟨e, rest, h'⟩ ← parseAbove eof .lowest rest
  let ⟨_, rest, h''⟩ ← ofExcept (expect eof .rparen rest)
  return ⟨e, rest, length_lt_trans₃ h h' h''⟩

/-! ## Statements with blocks -/

mutual

/-- A statement. -/
def parseStatement (ts : List Token) : Reading (Parsed Statement ts.length) :=
  visit .statement ts >>= fun _ => match ts with
  | ⟨.keyword (.kind kind), location⟩ :: rest => do
    let s ← parseDeclaration eof location kind rest
    return s.weaken (Nat.le_succ _)
  | ⟨.keyword .printWord, location⟩ :: rest => do
    let s ← parsePrint eof location rest
    visit .printed s.rest
    return s.weaken (Nat.le_succ _)
  | ⟨.keyword .ifWord, location⟩ :: rest => do
    let ⟨arm, rest, h⟩ ← parseArm location rest
    let ⟨arms, rest, h'⟩ ← parseArms rest
    let ⟨otherwise, rest, h''⟩ ← parseElse rest
    return ⟨.branch location (arm :: arms) otherwise, rest, by
      simp only [List.length_cons]; omega⟩
  | ⟨.keyword .whileWord, location⟩ :: rest => do
    let ⟨condition, rest, h⟩ ← parseCondition eof rest
    let ⟨body, rest, h'⟩ ← parseBlock rest
    return ⟨.loop location condition body, rest, by simp only [List.length_cons]; omega⟩
  | ⟨.keyword .funWord, location⟩ :: rest => do
    let ⟨(kind, name, parameters), rest, h⟩ ← ofExcept (parseHeader eof rest)
    let ⟨body, rest, h'⟩ ← parseBlock rest
    return ⟨.define location ⟨kind, name, parameters, body⟩, rest, by
      simp only [List.length_cons]; omega⟩
  | ⟨.keyword .returnWord, location⟩ :: rest => do
    let s ← parseReturn eof location rest
    return s.weaken (Nat.le_succ _)
  | ⟨.keyword .importWord, location⟩ :: rest => do
    let s ← ofExcept (parseImport eof location rest)
    return s.weaken (Nat.le_succ _)
  | ⟨.identifier name, location⟩ :: rest =>
    parseSimple eof location (⟨.identifier name, location⟩ :: rest)
  | ts => ofExcept (failFront eof .unexpectedToken ts)
termination_by (ts.length, 0)

/-- A condition and its block, behind the `if` or `elif` at the given location. -/
def parseArm (location : Option Location) (ts : List Token) : Reading (Parsed Arm ts.length) := do
  let ⟨condition, rest, h⟩ ← parseCondition eof ts
  let ⟨body, rest, h'⟩ ← parseBlock rest
  return ⟨⟨location, condition, body⟩, rest, length_lt_trans h h'⟩
termination_by (ts.length, 1)

/-- The `elif` arms at the front of tokens. -/
def parseArms (ts : List Token) : Reading (Parsed (List Arm) (ts.length + 1)) :=
  match ts with
  | ⟨.keyword .elifWord, location⟩ :: rest => do
    let ⟨arm, rest, h⟩ ← parseArm location rest
    let ⟨arms, rest, h'⟩ ← parseArms rest
    return ⟨arm :: arms, rest, by simp only [List.length_cons]; omega⟩
  | ts => return ⟨[], ts, Nat.lt_succ_self _⟩
termination_by (ts.length, 0)

/-- The `else` block at the front of tokens, if there is one. -/
def parseElse (ts : List Token) : Reading (Parsed (Option Block) (ts.length + 1)) :=
  match ts with
  | ⟨.keyword .elseWord, _⟩ :: rest => do
    let ⟨block, rest, h⟩ ← parseBlock rest
    return ⟨some block, rest, by simp only [List.length_cons]; omega⟩
  | ts => return ⟨none, ts, Nat.lt_succ_self _⟩
termination_by (ts.length, 0)

/-- Statements in braces. -/
def parseBlock (ts : List Token) : Reading (Parsed Block ts.length) := do
  visit .block ts
  let ⟨location, rest, h⟩ ← ofExcept (expect eof .lbrace ts)
  let ⟨statements, rest, h'⟩ ← parseStatements rest
  let ⟨_, rest, h''⟩ ← ofExcept (expect eof .rbrace rest)
  return ⟨⟨location, statements⟩, rest, by omega⟩
termination_by (ts.length, 0)

/-- Statements up to a `}` or the end of the tokens. -/
def parseStatements (ts : List Token) : Reading (Parsed (List Statement) (ts.length + 1)) :=
  if front ts = none ∨ front ts = some (.symbol .rbrace) then
    return ⟨[], ts, Nat.lt_succ_self _⟩
  else do
    let ⟨s, rest, h⟩ ← parseStatement ts
    let ⟨ss, rest, h'⟩ ← parseStatements rest
    return ⟨s :: ss, rest, Nat.lt_trans h' (Nat.succ_lt_succ h)⟩
termination_by (ts.length, 1)

end

/-! ## Programs -/

/-- The statements that the tokens consist of. -/
def parseAll (ts : List Token) : Reading (List Statement) :=
  match ts with
  | [] => return []
  | t :: ts => do
    let ⟨s, rest, _h⟩ ← parseStatement eof (t :: ts)
    return s :: (← parseAll rest)
termination_by ts.length
decreasing_by simpa using _h

/-- The program that the tokens consist of. -/
def parseProgram (ts : List Token) : Reading Program := do
  let statements ← parseAll eof ts
  return ⟨frontLocation eof ts, statements⟩

end Reading

/-! ## What was read -/

variable {eof}

section passes

variable {ts rest : List Token}

theorem passes_of_expectName {name : String}
    (h : outcome (expectName eof ts) = .ok (name, rest)) : Passes ts rest := by
  obtain ⟨l, rfl⟩ := (outcome_expectName_eq_ok eof).mp h
  exact ⟨[_], rfl, .word l rfl (by simp)⟩

theorem passes_of_parseCondition {e : Expr}
    (h : outcome (parseCondition eof ts) = .ok (e, rest)) : Passes ts rest := by
  obtain ⟨u, hu, he⟩ := parseCondition_eq_ok.mp h
  exact ⟨u, hu, he.closed⟩

theorem passes_of_parseHeader {header : Kind × String × List Parameter}
    (h : outcome (parseHeader eof ts) = .ok (header, rest)) : Passes ts rest := by
  obtain ⟨u, hu, hheader⟩ := parseHeader_eq_ok.mp h
  exact ⟨u, hu, hheader.closed⟩

theorem passes_of_parseStatement {s : Statement}
    (h : outcome (parseStatement eof ts) = .ok (s, rest)) : Passes ts rest := by
  obtain ⟨u, hu, hs⟩ := parseStatement_sound h
  exact ⟨u, hu, hs.closed⟩

theorem passes_of_parseArm {l : Option Location} {arm : Arm}
    (h : outcome (parseArm eof l ts) = .ok (arm, rest)) : Passes ts rest := by
  obtain ⟨u, hu, harm⟩ := parseArm_sound h
  exact ⟨u, hu, harm.closed⟩

theorem passes_of_parseArms {arms : List Arm}
    (h : outcome (parseArms eof ts) = .ok (arms, rest)) : Passes ts rest := by
  obtain ⟨u, hu, harms⟩ := parseArms_sound h
  exact ⟨u, hu, harms.closed⟩

end passes

/-! ## Agreement -/

section agreement

variable {whole : List Token}

theorem agrees_parseDeclaration (l : Option Location) {ts : List Token}
    (h : Before whole ts .plain) (kind : Kind) :
    Agrees (Visit.Right whole) .plain (Reading.parseDeclaration eof l kind ts)
      (parseDeclaration eof l kind ts) := by
  refine h.bind (.ofExcept _) passes_of_expectName fun ⟨name, rest, _⟩ h => ?_
  refine h.bind (.ofExcept _) (passes_of_expect rfl) fun ⟨_, rest, _⟩ h => ?_
  refine .bind (agrees_parseAbove h .lowest) fun ⟨value, rest, _⟩ _ => ?_
  exact .bind (.ofExcept _) fun _ _ => .pure _

theorem agrees_parsePrint (l : Option Location) {l' : Option Location} {ts : List Token}
    (h : Before whole (⟨.keyword .printWord, l'⟩ :: ts) .plain) :
    Agrees (Visit.Right whole) .plain (Reading.parsePrint eof l ts) (parsePrint eof l ts) := by
  refine .bind (.ofExcept _) fun ⟨_, rest, _⟩ hread => ?_
  rw [(outcome_expect_eq_ok eof).mp (congrArg outcome hread)] at h
  have hlist : AgreesInFront eof (Visit.Right whole) .items (Reading.parseList eof .add rest)
    (parseItems eof .items .add rest) := agrees_parseList h.print rfl
  obtain ⟨r, hr, hclosing⟩ := hlist
  dsimp only
  rw [← hclosing, bind_assoc]
  refine .bind (.switched hr) fun list _ => ?_
  refine .bind (.ofExcept _) fun ⟨items, rest, _⟩ _ => ?_
  exact .bind (.ofExcept _) fun _ _ => .pure _

theorem agrees_parseReturn (l : Option Location) {ts : List Token} (h : Before whole ts .plain) :
    Agrees (Visit.Right whole) .plain (Reading.parseReturn eof l ts) (parseReturn eof l ts) := by
  by_cases hend : front ts = some (.symbol .semicolon)
  · obtain ⟨r, ts, rfl⟩ := front_eq_some.mp hend
    exact .pure _
  · rw [Reading.parseReturn, parseReturn]
    · refine .bind (agrees_parseAbove h .lowest) fun value _ => ?_
      exact .bind (.ofExcept _) fun _ _ => .pure _
    all_goals
      rintro r rest rfl
      exact hend rfl

theorem agrees_parseAssigned (l : Option Location) {ts : List Token}
    (h : Before whole ts .plain) (target : Expr) :
    Agrees (Visit.Right whole) .plain (Reading.parseAssigned eof l target ts)
      (parseAssigned eof l target ts) := by
  cases target with
  | «variable» l' name =>
    refine h.bind (.ofExcept _) (passes_of_expect rfl) fun ⟨_, rest, _⟩ h => ?_
    refine .bind (agrees_parseAbove h .lowest) fun ⟨value, rest, _⟩ _ => ?_
    exact .bind (.ofExcept _) fun _ _ => .pure _
  | _ => exact .ofExcept (failFront eof (fun _ => .assignmentTarget) ts)

theorem agrees_parseSimple (l : Option Location) {ts : List Token} (h : Before whole ts .plain) :
    Agrees (Visit.Right whole) .plain (Reading.parseSimple eof l ts) (parseSimple eof l ts) := by
  refine h.bind (agrees_parseAbove h .lowest) passes_of_parseAbove fun ⟨e, rest, _⟩ h => ?_
  dsimp only
  by_cases hassign : front rest = some (.symbol .assign)
  · rw [if_pos hassign, if_pos hassign]
    exact .bind (agrees_parseAssigned l h e) fun _ _ => .pure _
  · rw [if_neg hassign, if_neg hassign]
    exact .bind (.ofExcept _) fun _ _ => .pure _

theorem agrees_parseCondition {ts : List Token} (h : Before whole ts .plain) :
    Agrees (Visit.Right whole) .plain (Reading.parseCondition eof ts) (parseCondition eof ts) := by
  refine .after (.visit (h.right (.inr (.inr rfl)))) ?_
  refine .bind (.ofExcept _) fun ⟨_, rest, _⟩ hread => ?_
  rw [(outcome_expect_eq_ok eof).mp (congrArg outcome hread)] at h
  refine .bind (agrees_parseAbove h.lparen .lowest) fun ⟨e, rest, _⟩ _ => ?_
  exact .bind (.ofExcept _) fun _ _ => .pure _

mutual

theorem agrees_parseStatement {ts : List Token} (h : Before whole ts .plain) :
    Agrees (Visit.Right whole) .plain (Reading.parseStatement eof ts) (parseStatement eof ts) := by
  have hvisit : Agrees (Visit.Right whole) .plain (Reading.visit .statement ts) (.ok ()) :=
    .visit (h.right (.inr (.inr rfl)))
  match ts with
  | ⟨.keyword (.kind kind), l⟩ :: ts =>
    rw [Reading.parseStatement, parseStatement]
    refine .after hvisit ?_
    exact .bind (agrees_parseDeclaration l (h.word rfl nofun) kind) fun _ _ => .pure _
  | ⟨.keyword .printWord, l⟩ :: ts =>
    rw [Reading.parseStatement, parseStatement]
    refine .after hvisit (.bind (agrees_parsePrint l h) fun s hread => ?_)
    have hread := (outcome_parseStatement_print eof l ts).trans (congrArg outcome hread)
    have hbehind := h.behind (passes_of_parseStatement hread)
    exact .after (.visit (hbehind.right (.inr (.inr rfl)))) (.pure _)
  | ⟨.keyword .ifWord, l⟩ :: ts =>
    have h := h.word rfl nofun
    rw [Reading.parseStatement, parseStatement]
    refine .after hvisit ?_
    refine h.bind (agrees_parseArm l h) passes_of_parseArm fun ⟨arm, rest, _⟩ h => ?_
    refine h.bind (agrees_parseArms h) passes_of_parseArms fun ⟨arms, rest, _⟩ h => ?_
    exact .bind (agrees_parseElse h) fun _ _ => .pure _
  | ⟨.keyword .whileWord, l⟩ :: ts =>
    have h := h.word rfl nofun
    rw [Reading.parseStatement, parseStatement]
    refine .after hvisit ?_
    refine h.bind (agrees_parseCondition h) passes_of_parseCondition fun ⟨_, rest, _⟩ h => ?_
    exact .bind (agrees_parseBlock h) fun _ _ => .pure _
  | ⟨.keyword .funWord, l⟩ :: ts =>
    have h := h.word rfl nofun
    rw [Reading.parseStatement, parseStatement]
    refine .after hvisit ?_
    refine h.bind (.ofExcept _) passes_of_parseHeader fun ⟨header, rest, _⟩ h => ?_
    exact .bind (agrees_parseBlock h) fun _ _ => .pure _
  | ⟨.keyword .returnWord, l⟩ :: ts =>
    rw [Reading.parseStatement, parseStatement]
    refine .after hvisit ?_
    exact .bind (agrees_parseReturn l (h.word rfl nofun)) fun _ _ => .pure _
  | ⟨.keyword .importWord, l⟩ :: ts =>
    rw [Reading.parseStatement, parseStatement]
    exact .after hvisit (.bind (.ofExcept _) fun _ _ => .pure _)
  | ⟨.identifier name, l⟩ :: ts =>
    rw [Reading.parseStatement, parseStatement]
    exact .after hvisit (agrees_parseSimple l h)
  | [] | ⟨.number .., _⟩ :: _ | ⟨.string _, _⟩ :: _ | ⟨.symbol _, _⟩ :: _
  | ⟨.keyword .elifWord, _⟩ :: _ | ⟨.keyword .elseWord, _⟩ :: _ | ⟨.keyword .xorWord, _⟩ :: _ =>
    rw [Reading.parseStatement, parseStatement]
    · exact .after hvisit (.ofExcept _)
    all_goals simp
termination_by (ts.length, 0)

theorem agrees_parseArm (l : Option Location) {ts : List Token} (h : Before whole ts .plain) :
    Agrees (Visit.Right whole) .plain (Reading.parseArm eof l ts) (parseArm eof l ts) := by
  rw [Reading.parseArm, parseArm]
  refine h.bind (agrees_parseCondition h) passes_of_parseCondition fun ⟨_, rest, _⟩ h => ?_
  exact .bind (agrees_parseBlock h) fun _ _ => .pure _
termination_by (ts.length, 1)

theorem agrees_parseArms {ts : List Token} (h : Before whole ts .plain) :
    Agrees (Visit.Right whole) .plain (Reading.parseArms eof ts) (parseArms eof ts) := by
  by_cases hfront : front ts = some (.keyword .elifWord)
  · obtain ⟨l, ts, rfl⟩ := front_eq_some.mp hfront
    have h := h.word rfl nofun
    rw [Reading.parseArms, parseArms]
    refine h.bind (agrees_parseArm l h) passes_of_parseArm fun ⟨arm, rest, hlt⟩ h => ?_
    have hlt := Nat.lt_succ_of_lt hlt
    exact .bind (agrees_parseArms h) fun _ _ => .pure _
  · rw [Reading.parseArms, parseArms]
    · exact .pure _
    all_goals
      rintro l rest rfl
      exact hfront rfl
termination_by (ts.length, 0)

theorem agrees_parseElse {ts : List Token} (h : Before whole ts .plain) :
    Agrees (Visit.Right whole) .plain (Reading.parseElse eof ts) (parseElse eof ts) := by
  by_cases hfront : front ts = some (.keyword .elseWord)
  · obtain ⟨l, ts, rfl⟩ := front_eq_some.mp hfront
    rw [Reading.parseElse, parseElse]
    exact .bind (agrees_parseBlock (h.word rfl nofun)) fun _ _ => .pure _
  · rw [Reading.parseElse, parseElse]
    · exact .pure _
    all_goals
      rintro l rest rfl
      exact hfront rfl
termination_by (ts.length, 0)

theorem agrees_parseBlock {ts : List Token} (h : Before whole ts .plain) :
    Agrees (Visit.Right whole) .plain (Reading.parseBlock eof ts) (parseBlock eof ts) := by
  rw [Reading.parseBlock, parseBlock]
  refine .after (.visit (h.right (.inr (.inr rfl)))) ?_
  refine h.bind (.ofExcept _) (passes_of_expect rfl) fun ⟨l, rest, _⟩ h => ?_
  refine .bind (agrees_parseStatements h) fun ⟨ss, rest, _⟩ _ => ?_
  exact .bind (.ofExcept _) fun _ _ => .pure _
termination_by (ts.length, 0)

theorem agrees_parseStatements {ts : List Token} (h : Before whole ts .plain) :
    Agrees (Visit.Right whole) .plain (Reading.parseStatements eof ts)
      (parseStatements eof ts) := by
  by_cases hend : front ts = none ∨ front ts = some (.symbol .rbrace)
  · rw [Reading.parseStatements, parseStatements, if_pos hend, if_pos hend]
    exact .pure _
  · rw [Reading.parseStatements, parseStatements, if_neg hend, if_neg hend]
    refine h.bind (agrees_parseStatement h) passes_of_parseStatement fun ⟨s, rest, _⟩ h => ?_
    exact .bind (agrees_parseStatements h) fun _ _ => .pure _
termination_by (ts.length, 1)

end

theorem agrees_parseAll {ts : List Token} (h : Before whole ts .plain) :
    Agrees (Visit.Right whole) .plain (Reading.parseAll eof ts) (parseAll eof ts) := by
  match ts with
  | [] =>
    rw [Reading.parseAll, parseAll]
    exact .pure _
  | t :: ts =>
    rw [Reading.parseAll, parseAll]
    refine h.bind (agrees_parseStatement h) passes_of_parseStatement fun s h => ?_
    exact .bind (agrees_parseAll h) fun _ _ => .pure _
termination_by ts.length
decreasing_by exact s.length_rest

/-- A program is read with a switch as it is by the parser that is told its mode, and the switch
always stands right. -/
theorem agrees_parseProgram (ts : List Token) :
    Agrees (Visit.Right ts) .plain (Reading.parseProgram eof ts) (parseProgram eof ts) :=
  .bind (agrees_parseAll (.start ts)) fun _ _ => .pure _

end agreement

end KLang
