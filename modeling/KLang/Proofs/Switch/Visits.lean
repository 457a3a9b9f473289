import KLang.Proofs.Parsing.Program
import KLang.Proofs.Parsing.Separators
import KLang.Proofs.Switch.Statement

/-!
# What a reading comes by

Readings note where they come by. What is noted of the points that belong to statements can be told
from the tree that was read: each statement, block, condition and print statement in it has been
come by once, in the order in which they stand in the text.

* `Statement.points`: the points of a statement and of the statements in it.
* `Notes`: what holds of the result of a reading and of the points noted on the way, with a rule for
  each way to put readings together.
* `notes_parseStatement`, `notes_parseProgram`: the points of what was read, and no others.
* `print_separators`: how print statements are read, and how the switch stands on the way.
-/

namespace KLang

/-! ## Points -/

/-- The points that belong to statements, and not to their expressions. -/
def Point.ofStatement : Point → Bool
  | .expression | .precedence => false
  | .statement | .block | .condition | .printed => true

/-- The points of statements that were visited. -/
def stations (visits : List Visit) : List Point := (visits.map Visit.point).filter Point.ofStatement

theorem stations_append (visits visits' : List Visit) :
    stations (visits ++ visits') = stations visits ++ stations visits' := by
  simp [stations]

mutual

/-- The points that a statement has when it is read. -/
def Statement.points : Statement → List Point
  | .print _ _ => [.statement, .printed]
  | .branch _ arms none => .statement :: Arm.pointsAll arms
  | .branch _ arms (some block) => .statement :: (Arm.pointsAll arms ++ Block.points block)
  | .loop _ _ body => .statement :: .condition :: Block.points body
  | .define _ function => .statement :: Function.points function
  | .declare _ _ _ _ | .assign _ _ _ _ | .returnValue _ _ | .importModule _ _ | .evaluate _ _ =>
    [.statement]

/-- The points of statements, one behind the other. -/
def Statement.pointsAll : List Statement → List Point
  | [] => []
  | s :: ss => Statement.points s ++ Statement.pointsAll ss

/-- The points of a block. -/
def Block.points : Block → List Point
  | ⟨_, ss⟩ => .block :: Statement.pointsAll ss

/-- The points of an arm. -/
def Arm.points : Arm → List Point
  | ⟨_, _, body⟩ => .condition :: Block.points body

/-- The points of arms, one behind the other. -/
def Arm.pointsAll : List Arm → List Point
  | [] => []
  | arm :: arms => Arm.points arm ++ Arm.pointsAll arms

/-- The points of a function. -/
def Function.points : Function → List Point
  | ⟨_, _, _, body⟩ => Block.points body

end

theorem Statement.points_branch (l : Option Location) (arms : List Arm) (otherwise : Option Block) :
    (Statement.branch l arms otherwise).points =
      .statement :: (Arm.pointsAll arms ++ otherwise.elim [] Block.points) := by
  cases otherwise <;> simp [points]

/-! ## What holds of the points -/

/-- If the reading succeeds, the property holds of what was read and of the points of statements
that were visited on the way. -/
def Notes {α : Type} (x : Reading α) (Q : α → List Point → Prop) : Prop :=
  ∀ s a s', x.run s = .ok a s' → ∃ new, s'.visits = s.visits ++ new ∧ Q a (stations new)

/-- No point of a statement is visited. -/
abbrev Passing {α : Type} (x : Reading α) : Prop := Notes x fun _ us => us = []

namespace Notes

variable {α β : Type} {x : Reading α} {Q : α → List Point → Prop}

theorem pure {a : α} (h : Q a []) : Notes (pure a) Q := by
  intro s b s' hrun
  cases hrun
  exact ⟨[], by simp, h⟩

theorem error (e : ParseError) : Notes (throw e) Q := nofun

theorem ofExcept_of {r : Except ParseError α} (h : ∀ a, r = .ok a → Q a []) :
    Notes (Reading.ofExcept r) Q := by
  cases r with
  | ok a => exact pure (h a rfl)
  | error e => exact error e

theorem failFront (eof : Option Location) (fault : Option Lexeme → ParseFault) (ts : List Token) :
    Notes (Reading.ofExcept (failFront eof fault ts)) Q :=
  error _

theorem ofExcept (r : Except ParseError α) : Passing (Reading.ofExcept r) :=
  ofExcept_of fun _ _ => rfl

theorem visit (point : Point) (ts : List Token) :
    Notes (Reading.visit point ts) fun _ us => us = [point].filter Point.ofStatement := by
  intro s a s' hrun
  cases hrun
  exact ⟨[⟨point, s.mode, ts⟩], rfl, rfl⟩

theorem bind {f : α → Reading β} {R : β → List Point → Prop} (hx : Notes x Q)
    (hf : ∀ a us, Q a us → Notes (f a) fun b vs => R b (us ++ vs)) : Notes (x >>= f) R := by
  intro s b s'' hrun
  rw [EStateM.run_bind] at hrun
  split at hrun
  case h_1 a s' hx' =>
    obtain ⟨new, hnew, ha⟩ := hx s a s' hx'
    obtain ⟨new', hnew', hb⟩ := hf a _ ha s' b s'' hrun
    refine ⟨new ++ new', by rw [hnew', hnew, List.append_assoc], ?_⟩
    rw [stations_append]
    exact hb
  case h_2 => cases hrun

theorem switched (mode : Mode) (hx : Notes x Q) : Notes (Reading.switched mode x) Q := by
  intro s a s' hrun
  rw [Reading.run_switched] at hrun
  split at hrun
  case h_1 a s₁ hx' =>
    cases hrun
    exact hx { s with mode } a s₁ hx'
  case h_2 => cases hrun

theorem passing_bind {f : α → Reading β} {R : β → List Point → Prop} (hx : Passing x)
    (hf : ∀ a, Notes (f a) R) : Notes (x >>= f) R := by
  refine hx.bind fun a us hus => ?_
  subst hus
  exact hf a

theorem visit_bind {point : Point} (h : point.ofStatement = true) (ts : List Token)
    {f : Unit → Reading β} {R : β → List Point → Prop}
    (hf : Notes (f ()) fun b us => R b (point :: us)) :
    Notes (Reading.visit point ts >>= f) R := by
  refine (visit point ts).bind fun _ us hus => ?_
  rw [hus, List.filter_cons_of_pos h]
  exact hf

end Notes

/-! ## Expressions -/

section expressions

variable {eof : Option Location}

theorem passing_precedence (ts : List Token) : Passing (Reading.precedence ts) :=
  .passing_bind (Notes.visit .precedence ts) fun _ => fun s a s' hrun => by
    cases hrun
    exact ⟨[], by simp, rfl⟩

mutual

theorem passing_parseAbove (bound : Precedence) (ts : List Token) :
    Passing (Reading.parseAbove eof bound ts) := by
  rw [Reading.parseAbove]
  refine .passing_bind (Notes.visit .expression ts) fun _ => ?_
  refine .passing_bind (passing_parseOperand ts) fun ⟨operand, rest, hlt⟩ => ?_
  exact .passing_bind (passing_parseFollowers bound operand rest) fun e => .pure rfl
termination_by (ts.length, 1)

theorem passing_parseOperand (ts : List Token) : Passing (Reading.parseOperand eof ts) := by
  rw [Reading.parseOperand.eq_def]
  split
  -- a name, a number and a string
  case h_1 | h_2 | h_3 => exact .pure rfl
  case h_4 l rest =>
    refine .passing_bind (.switched .plain (passing_parseAbove .lowest rest)) fun _ => ?_
    exact .passing_bind (.ofExcept _) fun _ => .pure rfl
  case h_5 w l rest _ _ _ _ =>
    split
    · exact .passing_bind (passing_parseAbove .prefixed rest) fun _ => .pure rfl
    · exact .ofExcept _
  case h_6 => exact .ofExcept _
termination_by (ts.length, 0)

theorem passing_parseFollowers (bound : Precedence) (left : Expr) (ts : List Token) :
    Passing (Reading.parseFollowers eof bound left ts) := by
  match ts with
  | [] =>
    rw [Reading.parseFollowers]
    exact .passing_bind (passing_precedence []) fun _ => .pure rfl
  | ⟨w, l⟩ :: ts =>
    rw [Reading.parseFollowers]
    refine .passing_bind (passing_precedence _) fun tightness => ?_
    cases w.follower? with
    | none => exact .pure rfl
    | some f =>
      dsimp only
      split
      · refine .passing_bind (passing_parseFollower f left ⟨w, l⟩ ts) fun ⟨e, rest, _⟩ => ?_
        exact .passing_bind (passing_parseFollowers bound e rest) fun _ => .pure rfl
      · exact .pure rfl
termination_by (ts.length, 0)

theorem passing_parseFollower (f : Follower) (left : Expr) (word : Token) (ts : List Token) :
    Passing (Reading.parseFollower eof f left word ts) := by
  rw [Reading.parseFollower.eq_def]
  cases f with
  | binary op =>
    refine .passing_bind (passing_precedence _) fun tightness => ?_
    exact .passing_bind (passing_parseAbove _ ts) fun _ => .pure rfl
  | call =>
    dsimp only
    split
    · refine .switched .plain (.passing_bind (passing_parseList .comma ts) fun _ => ?_)
      exact .passing_bind (.ofExcept _) fun _ => .pure rfl
    · exact .error _
  | member =>
    dsimp only
    split
    · exact .passing_bind (.ofExcept _) fun _ => .pure rfl
    · exact .error _
  | step op =>
    dsimp only
    split
    · exact .pure rfl
    · exact .error _
termination_by (ts.length, 3)

theorem passing_parseList (separator : Symbol) (ts : List Token) :
    Passing (Reading.parseList eof separator ts) := by
  rw [Reading.parseList]
  split
  · exact .pure rfl
  · refine .passing_bind (passing_parseAbove .lowest ts) fun ⟨e, rest, _⟩ => ?_
    exact .passing_bind (passing_parseMoreList separator rest) fun _ => .pure rfl
termination_by (ts.length, 2)

theorem passing_parseMoreList (separator : Symbol) (ts : List Token) :
    Passing (Reading.parseMoreList eof separator ts) := by
  rw [Reading.parseMoreList]
  split
  · exact .pure rfl
  · refine .passing_bind (.ofExcept _) fun ⟨_, rest, hlt⟩ => ?_
    refine .passing_bind (passing_parseAbove .lowest rest) fun ⟨e, rest', hlt'⟩ => ?_
    have := length_lt_trans hlt hlt'
    exact .passing_bind (passing_parseMoreList separator rest') fun _ => .pure rfl
termination_by (ts.length, 0)

end

end expressions

/-! ## Statements -/

section statements

variable {eof : Option Location}

theorem notes_parseDeclaration (l : Option Location) (kind : Kind) (ts : List Token) :
    Notes (Reading.parseDeclaration eof l kind ts) fun p us => p.value.points = .statement :: us := by
  refine .passing_bind (.ofExcept _) fun ⟨name, rest, _⟩ => ?_
  refine .passing_bind (.ofExcept _) fun ⟨_, rest, _⟩ => ?_
  refine .passing_bind (passing_parseAbove .lowest rest) fun ⟨value, rest, _⟩ => ?_
  exact .passing_bind (.ofExcept _) fun _ => .pure rfl

theorem notes_parsePrint (l : Option Location) (ts : List Token) :
    Notes (Reading.parsePrint eof l ts) fun p us =>
      p.value.points = .statement :: (us ++ [.printed]) := by
  refine .passing_bind (.ofExcept _) fun ⟨_, rest, _⟩ => ?_
  refine .passing_bind (.switched .items (passing_parseList .add rest)) fun list => ?_
  refine .passing_bind (.ofExcept _) fun ⟨items, rest, _⟩ => ?_
  exact .passing_bind (.ofExcept _) fun _ => .pure rfl

theorem notes_parseReturn (l : Option Location) (ts : List Token) :
    Notes (Reading.parseReturn eof l ts) fun p us => p.value.points = .statement :: us := by
  rw [Reading.parseReturn.eq_def]
  split
  · exact .pure rfl
  · refine .passing_bind (passing_parseAbove .lowest ts) fun _ => ?_
    exact .passing_bind (.ofExcept _) fun _ => .pure rfl

theorem notes_parseAssigned (l : Option Location) (target : Expr) (ts : List Token) :
    Notes (Reading.parseAssigned eof l target ts) fun p us => p.value.points = .statement :: us := by
  rw [Reading.parseAssigned.eq_def]
  split
  · refine .passing_bind (.ofExcept _) fun ⟨_, rest, _⟩ => ?_
    refine .passing_bind (passing_parseAbove .lowest rest) fun _ => ?_
    exact .passing_bind (.ofExcept _) fun _ => .pure rfl
  · exact .failFront eof _ ts

theorem notes_parseSimple (l : Option Location) (ts : List Token) :
    Notes (Reading.parseSimple eof l ts) fun p us => p.value.points = .statement :: us := by
  refine .passing_bind (passing_parseAbove .lowest ts) fun ⟨e, rest, _⟩ => ?_
  dsimp only
  split
  · refine (notes_parseAssigned l e rest).bind fun p us hus => ?_
    exact .pure (by simpa using hus)
  · exact .passing_bind (.ofExcept _) fun _ => .pure rfl

theorem notes_parseCondition (ts : List Token) :
    Notes (Reading.parseCondition eof ts) fun _ us => us = [.condition] := by
  refine .visit_bind rfl ts (.passing_bind (.ofExcept _) fun ⟨_, rest, _⟩ => ?_)
  refine .passing_bind (passing_parseAbove .lowest rest) fun _ => ?_
  exact .passing_bind (.ofExcept _) fun _ => .pure rfl

theorem notes_parseImport (l : Option Location) (ts : List Token) :
    Notes (Reading.ofExcept (parseImport eof l ts)) fun p us => p.value.points = .statement :: us := by
  refine .ofExcept_of fun p hp => ?_
  obtain ⟨name, -, -, -, hvalue⟩ := parseImport_eq_ok.mp (congrArg outcome hp)
  rw [hvalue, Statement.points]

mutual

/-- The points that are visited are those of the statement that was read. -/
theorem notes_parseStatement (ts : List Token) :
    Notes (Reading.parseStatement eof ts) fun p us => p.value.points = us := by
  match ts with
  | ⟨.keyword (.kind kind), l⟩ :: ts =>
    rw [Reading.parseStatement]
    refine .visit_bind rfl _ ((notes_parseDeclaration l kind ts).bind fun p us hus => ?_)
    exact .pure (hus.trans (by simp))
  | ⟨.keyword .printWord, l⟩ :: ts =>
    rw [Reading.parseStatement]
    refine .visit_bind rfl _ ((notes_parsePrint l ts).bind fun p us hus => ?_)
    exact .visit_bind rfl p.rest (.pure (hus.trans (by simp)))
  | ⟨.keyword .ifWord, l⟩ :: ts =>
    rw [Reading.parseStatement]
    refine .visit_bind rfl _ ((notes_parseArm l ts).bind fun ⟨arm, rest, hlt⟩ us hus => ?_)
    refine (notes_parseArms rest).bind fun ⟨arms, rest', hlt'⟩ vs hvs => ?_
    refine (notes_parseElse rest').bind fun ⟨otherwise, _, _⟩ ws hws => .pure ?_
    simp [Statement.points_branch, Arm.pointsAll, ← hus, ← hvs, ← hws]
  | ⟨.keyword .whileWord, l⟩ :: ts =>
    rw [Reading.parseStatement]
    refine .visit_bind rfl _ ((notes_parseCondition ts).bind fun ⟨_, rest, hlt⟩ us hus => ?_)
    refine (notes_parseBlock rest).bind fun ⟨body, _, _⟩ vs hvs => .pure ?_
    simp [Statement.points, hus, ← hvs]
  | ⟨.keyword .funWord, l⟩ :: ts =>
    rw [Reading.parseStatement]
    refine .visit_bind rfl _ (.passing_bind (.ofExcept _) fun ⟨header, rest, hlt⟩ => ?_)
    refine (notes_parseBlock rest).bind fun ⟨body, _, _⟩ us hus => .pure ?_
    simp [Statement.points, Function.points, ← hus]
  | ⟨.keyword .returnWord, l⟩ :: ts =>
    rw [Reading.parseStatement]
    refine .visit_bind rfl _ ((notes_parseReturn l ts).bind fun p us hus => ?_)
    exact .pure (hus.trans (by simp))
  | ⟨.keyword .importWord, l⟩ :: ts =>
    rw [Reading.parseStatement]
    refine .visit_bind rfl _ ((notes_parseImport l ts).bind fun p us hus => ?_)
    exact .pure (hus.trans (by simp))
  | ⟨.identifier name, l⟩ :: ts =>
    rw [Reading.parseStatement]
    exact .visit_bind rfl _ (notes_parseSimple l _)
  | [] | ⟨.number .., _⟩ :: _ | ⟨.string _, _⟩ :: _ | ⟨.symbol _, _⟩ :: _
  | ⟨.keyword .elifWord, _⟩ :: _ | ⟨.keyword .elseWord, _⟩ :: _ | ⟨.keyword .xorWord, _⟩ :: _ =>
    rw [Reading.parseStatement]
    · exact .visit_bind rfl _ (.failFront eof _ _)
    all_goals simp
termination_by (ts.length, 0)

theorem notes_parseArm (l : Option Location) (ts : List Token) :
    Notes (Reading.parseArm eof l ts) fun p us => p.value.points = us := by
  rw [Reading.parseArm]
  refine (notes_parseCondition ts).bind fun ⟨condition, rest, _⟩ us hus => ?_
  refine (notes_parseBlock rest).bind fun ⟨body, _, _⟩ vs hvs => .pure ?_
  simp [Arm.points, hus, ← hvs]
termination_by (ts.length, 1)

theorem notes_parseArms (ts : List Token) :
    Notes (Reading.parseArms eof ts) fun p us => Arm.pointsAll p.value = us := by
  by_cases hfront : front ts = some (.keyword .elifWord)
  · obtain ⟨l, ts, rfl⟩ := front_eq_some.mp hfront
    rw [Reading.parseArms]
    refine (notes_parseArm l ts).bind fun ⟨arm, rest, hlt⟩ us hus => ?_
    have hlt := Nat.lt_succ_of_lt hlt
    refine (notes_parseArms rest).bind fun ⟨arms, _, _⟩ vs hvs => .pure ?_
    simp [Arm.pointsAll, ← hus, ← hvs]
  · rw [Reading.parseArms]
    · exact .pure rfl
    all_goals
      rintro l rest rfl
      exact hfront rfl
termination_by (ts.length, 0)

theorem notes_parseElse (ts : List Token) :
    Notes (Reading.parseElse eof ts) fun p us => p.value.elim [] Block.points = us := by
  by_cases hfront : front ts = some (.keyword .elseWord)
  · obtain ⟨l, ts, rfl⟩ := front_eq_some.mp hfront
    rw [Reading.parseElse]
    exact (notes_parseBlock ts).bind fun ⟨block, _, _⟩ us hus => .pure (by simpa using hus)
  · rw [Reading.parseElse]
    · exact .pure rfl
    all_goals
      rintro l rest rfl
      exact hfront rfl
termination_by (ts.length, 0)

theorem notes_parseBlock (ts : List Token) :
    Notes (Reading.parseBlock eof ts) fun p us => p.value.points = us := by
  rw [Reading.parseBlock]
  refine .visit_bind rfl ts (.passing_bind (.ofExcept _) fun ⟨l, rest, hlt⟩ => ?_)
  refine (notes_parseStatements rest).bind fun ⟨ss, rest, _⟩ us hus => ?_
  refine .passing_bind (.ofExcept _) fun _ => .pure ?_
  simp [Block.points, ← hus]
termination_by (ts.length, 0)

theorem notes_parseStatements (ts : List Token) :
    Notes (Reading.parseStatements eof ts) fun p us => Statement.pointsAll p.value = us := by
  rw [Reading.parseStatements]
  split
  · exact .pure rfl
  · refine (notes_parseStatement ts).bind fun ⟨s, rest, hlt⟩ us hus => ?_
    refine (notes_parseStatements rest).bind fun ⟨ss, rest, _⟩ vs hvs => .pure ?_
    simp [Statement.pointsAll, ← hus, ← hvs]
termination_by (ts.length, 1)

end

theorem notes_parseAll (ts : List Token) :
    Notes (Reading.parseAll eof ts) fun ss us => Statement.pointsAll ss = us := by
  cases ts with
  | nil =>
    rw [Reading.parseAll]
    exact .pure rfl
  | cons t ts =>
    rw [Reading.parseAll]
    refine (notes_parseStatement (t :: ts)).bind fun s us hus => ?_
    refine (notes_parseAll s.rest).bind fun ss vs hvs => .pure ?_
    simp [Statement.pointsAll, ← hus, ← hvs]
termination_by ts.length
decreasing_by exact s.length_rest

/-- The points that are visited are those of the statements of the program. -/
theorem notes_parseProgram (ts : List Token) :
    Notes (Reading.parseProgram eof ts) fun program us =>
      Statement.pointsAll program.statements = us :=
  (notes_parseAll ts).bind fun ss us hus => .pure (by simpa using hus)

end statements

/-! ## Print statements -/

/-- **A print list is cut at its separators.** Let a print statement have the tokens `ts` up to the
matching `)`. It is read exactly if there are none, or if each of the pieces between the `+` outside
of parentheses is read, on its own and to its end, as an expression in plain mode. The items are then
the expressions of the pieces in their order. If the mode is a switch that is set for print lists and
put back behind them and in parentheses, programs are read in the same way, and the switch is as
before at the end, also after an error. On the way it stands for printed items exactly where a print
list is being read outside of inner parentheses, and so in plain mode in front of every statement,
block and condition and behind every print statement. Each of them is visited: the points of
statements that are noted are, in their order, those of the statements that were read, whether the
text is a program or not. -/
theorem print_separators (eof : Option Location) :
    (∀ (l l₁ r r₁ : Option Location) (ts rest : List Token), Balanced ts →
      ((∃ read, outcome (parseStatement eof (printTokens l l₁ r r₁ ts rest)) = .ok read) ↔
        ts = [] ∨ ∀ u ∈ cutAt 0 ts, ∃ e, outcome (parseExpr eof .plain u) = .ok (e, [])) ∧
      ∀ s rest', outcome (parseStatement eof (printTokens l l₁ r r₁ ts rest)) = .ok (s, rest') →
        rest' = rest ∧ ∃ es, s = .print l es ∧ (ts = [] ∧ es = [] ∨
          List.Forall₂ (fun u e => outcome (parseExpr eof .plain u) = .ok (e, []))
            (cutAt 0 ts) es)) ∧
    (∀ ts : List Token, ∃ visits,
      (Reading.parseProgram eof ts).run ⟨.plain, []⟩ =
        resultAt ⟨.plain, visits⟩ (parseProgram eof ts) ∧
      (∀ v ∈ visits, v.Right ts) ∧
      ∀ program, parseProgram eof ts = .ok program →
        stations visits = Statement.pointsAll program.statements) ∧
    ∀ (ts : List Token) (s s' : Switch) (p : Parsed Statement ts.length),
      (Reading.parseStatement eof ts).run s = .ok p s' →
        ∃ new, s'.visits = s.visits ++ new ∧ stations new = p.value.points := by
  refine ⟨fun l l₁ r r₁ ts rest hts => ⟨?_, fun s rest' => ?_⟩, fun ts => ?_,
    fun ts s s' p hrun => ?_⟩
  · rw [← exists_forall₂_iff]
    constructor
    · rintro ⟨⟨s, rest'⟩, hread⟩
      obtain ⟨-, es, -, hes⟩ := (parseStatement_printTokens_eq_ok hts).mp hread
      exact hes.imp And.left fun hes => ⟨es, hes⟩
    · rintro (hempty | ⟨es, hes⟩)
      · exact ⟨_, (parseStatement_printTokens_eq_ok hts).mpr ⟨rfl, [], rfl, .inl ⟨hempty, rfl⟩⟩⟩
      · exact ⟨_, (parseStatement_printTokens_eq_ok hts).mpr ⟨rfl, es, rfl, .inr hes⟩⟩
  · exact (parseStatement_printTokens_eq_ok hts).mp
  · have hagrees : Agrees (Visit.Right ts) .plain (Reading.parseProgram eof ts)
      (parseProgram eof ts) := agrees_parseProgram ts
    obtain ⟨visits, hvisits, hrun⟩ := hagrees []
    refine ⟨visits, hrun, hvisits, fun program hread => ?_⟩
    rw [hread] at hrun
    obtain ⟨new, hnew, hpoints⟩ := notes_parseProgram ts _ program _ hrun
    obtain rfl : visits = new := hnew
    exact hpoints.symm
  · obtain ⟨new, hnew, hpoints⟩ := notes_parseStatement ts s p s' hrun
    exact ⟨new, hnew, hpoints.symm⟩

theorem print_separators_grouped :
    let words (ls : List Lexeme) : List Token := ls.map (⟨·, none⟩)
    let x (name : String) : Expr := .variable none ⟨none, name⟩
    let ts := printTokens none none none none (words [.identifier "a", .symbol .add,
      .symbol .lparen, .identifier "b", .symbol .add, .identifier "c", .symbol .rparen]) []
    let s : Statement := .print none [x "a", .binary none .add (x "b") (x "c")]
    outcome (parseStatement none ts) = .ok (s, []) ∧
      ∃ visits, (Reading.parseProgram none ts).run ⟨.plain, []⟩ =
        .ok ⟨none, [s]⟩ ⟨.plain, visits⟩ ∧ stations visits = [.statement, .printed] := by
  intro words x ts s
  have hname {s : Stratum} (name : String) :
      Derives .plain s [⟨.identifier name, none⟩] (x name) :=
    (Derives.name none name).of_primary
  have hplus {u v : List Token} {e e' : Expr} (hu : Derives .plain .sum u e)
      (hv : Derives .plain .product v e') :
      IsExpr .plain (u ++ ⟨.symbol .add, none⟩ :: v) (.binary none .add e e') :=
    (@Derives.binary .plain .add u v e e' none nofun (.inl rfl) hu hv).loosest
  have hgroup := @Derives.grouped .plain _ _ none none (hplus (hname "b") (hname "c"))
  have hlist := hplus (hname "a") (hgroup.of_primary)
  have hread {u : List Token} {e : Expr} (h : IsExpr .plain u e) :
      outcome (parseExpr none .plain u) = .ok (e, []) := by
    have happend : outcome (parseExpr none .plain (u ++ [])) = .ok (e, []) :=
      parseExpr_complete h rfl
    rwa [List.append_nil] at happend
  have hfirst := hread (hname "a")
  have hsecond := hread (hgroup.of_primary)
  obtain ⟨hprint, hprogram, -⟩ := print_separators none
  obtain ⟨hiff, hitems⟩ := hprint none none none none _ [] hlist.closed.toBalanced
  obtain ⟨⟨s', rest⟩, hok⟩ := hiff.mpr <| .inr <| List.forall_mem_cons.mpr
    ⟨⟨_, hfirst⟩, List.forall_mem_cons.mpr ⟨⟨_, hsecond⟩, by simp⟩⟩
  have hs : outcome (parseStatement none ts) = .ok (s, []) := by
    obtain ⟨rfl, es, rfl, ⟨⟨⟩, -⟩ | hes⟩ := hitems s' rest hok
    cases hes with
    | cons h hes =>
      cases hes with
      | cons h' hes =>
        cases hes
        cases hfirst.symm.trans h
        cases hsecond.symm.trans h'
        exact hok
  obtain ⟨u, hu, hstatement⟩ := parseStatement_sound hs
  have hread : parseProgram none ts = .ok ⟨none, [s]⟩ := by
    refine parseProgram_eq_ok.mpr ⟨?_, rfl⟩
    rw [hu]
    exact .cons hstatement .nil
  obtain ⟨visits, hrun, -, hvisits⟩ := hprogram ts
  rw [hread] at hrun
  exact ⟨hs, visits, hrun, hvisits _ hread⟩

end KLang
