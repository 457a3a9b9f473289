import KLang.Interpreter.Session
import KLang.Proofs.Evaluation.Scope
import KLang.Proofs.Lexing.Join
import KLang.Proofs.Parsing.Program

/-!
# Programs one behind the other

* `execAll_append`, `Interpreter.run_append`: statements in a row are executed one part after the
  other.
* `Program.ofText_join`: the program of two texts with a line end between them.
* `Session.eval_join`: running the two texts together is running one after the other.
-/

namespace KLang

/-! ## Statements in a row -/

section evaluation

variable (world : World) (enter : Enter) (rounds : Nat)

theorem execAll_append (ss ss' : List Statement) :
    execAll world enter rounds (ss ++ ss') = (do
      match ← execAll world enter rounds ss with
      | .next => execAll world enter rounds ss'
      | .returned v => return .returned v) := by
  induction ss with
  | nil => rw [execAll, pure_bind, List.nil_append]
  | cons s ss ih =>
    rw [List.cons_append, execAll, execAll, bind_assoc]
    refine bind_congr fun flow => ?_
    cases flow with
    | next => exact ih
    | returned v => rw [pure_bind]

end evaluation

/-- A run and, if it came to its end, what follows in the interpreter it left. -/
def Run.andThen (r : Run) (next : Interpreter → Run) : Run :=
  match r.result with
  | .done => ⟨(next r.interpreter).result, (next r.interpreter).interpreter,
      r.output ++ (next r.interpreter).output⟩
  | _ => r

namespace Interpreter

variable (limits : Limits) (world : World)

/-- The run that ends at a state. -/
def ending (verdict : Except Stop Flow) (s : State) : Run :=
  ⟨match verdict with
    | .ok flow => flow.result
    | .error stop => stop.result, s.toInterpreter, s.output⟩

theorem run_eq (i : Interpreter) (program : Program) :
    i.run limits world program =
      ending ((execution limits world program.statements).verdict i.start)
        ((execution limits world program.statements).after i.start) := by
  rw [run, Eval.run_eq]
  cases (execution limits world program.statements).verdict i.start <;> rfl

/-- At the top level, statements are executed as from the start of the interpreter they meet, only
behind the output that is there already. -/
theorem execution_of_top (statements : List Statement) {s : State} (h : s.locals = none) :
    (execution limits world statements).verdict s =
        (execution limits world statements).verdict s.toInterpreter.start ∧
      (execution limits world statements).after s =
        ((execution limits world statements).after s.toInterpreter.start).behind s.output := by
  have hframe := written_discipline s.output
  refine hframe.execAll world (hframe.enterBody world limits.rounds limits.calls) limits.rounds
    statements s.toInterpreter.start s ?_
  obtain ⟨i, locals, output⟩ := s
  obtain rfl : locals = none := h
  exact congrArg (State.mk i none) (Output.append_empty output).symm

theorem locals_execution (i : Interpreter) (statements : List Statement) :
    ((execution limits world statements).after i.start).locals = none := by
  have hplace : SamePlace i.start ((execution limits world statements).after i.start) :=
    names_discipline.execAll world (names_discipline.enterBody world limits.rounds limits.calls)
      limits.rounds statements i.start
  simpa [start] using hplace.1

/-- Statements in a row are executed one part after the other. -/
theorem run_append (i : Interpreter) (p q program : Program)
    (h : program.statements = p.statements ++ q.statements) :
    i.run limits world program =
      (i.run limits world p).andThen fun i => i.run limits world q := by
  have hlocals := locals_execution limits world i p.statements
  obtain ⟨hverdict, hafter⟩ := execution_of_top limits world q.statements hlocals
  simp only [run_eq]
  rw [h, execution, execAll_append, ← execution, ← execution, Eval.verdict_bind]
  cases hp : (execution limits world p.statements).verdict i.start with
  | error stop =>
    rw [Eval.after_bind_of_error hp]
    cases stop <;> rfl
  | ok flow =>
    rw [Eval.after_bind_of_ok hp]
    cases flow with
    | returned v => rfl
    | next =>
      change ending ((execution limits world q.statements).verdict _)
        ((execution limits world q.statements).after _) = _
      rw [hverdict, hafter]
      rfl

end Interpreter

/-! ## Texts -/

theorem Program.ofText_join {p q : String} {location : Option Location} {program program' : Program}
    (hp : Program.ofText p location = .ok program)
    (hq : Program.ofText q (location.map (·.down (newlines p.toList + 1))) = .ok program') :
    ∃ joined, Program.ofText (p ++ "\n" ++ q) location = .ok joined ∧
      joined.statements = program.statements ++ program'.statements := by
  obtain ⟨eof, hend, hstatements, -⟩ := Program.ofText_eq_ok.mp hp
  obtain ⟨eof', hend', hstatements', -⟩ := Program.ofText_eq_ok.mp hq
  have hjoin : Tokens.ofText (p ++ "\n" ++ q) location =
      ⟨(Tokens.ofText p location).words ++
          (Tokens.ofText q (location.map (·.down (newlines p.toList + 1)))).words,
        (Tokens.ofText q (location.map (·.down (newlines p.toList + 1)))).ending⟩ := by
    have htext : (p ++ "\n" ++ q).toList = p.toList ++ '\n' :: q.toList := by simp
    rw [Tokens.ofText, htext]
    exact Tokens.ofChars_join hend q.toList
  refine ⟨⟨_, _⟩, Program.ofText_eq_ok.mpr ⟨eof', ?_, ?_, rfl⟩, rfl⟩
  · rw [hjoin, hend']
  · rw [hjoin]
    exact hstatements.append hstatements'

namespace Session

variable (limits : Limits) (world : World)

theorem eval_of_ok (s : Session) {source : String} {location : Option Location} {program : Program}
    (h : Program.ofText source location = .ok program) :
    s.eval limits world source location =
      (.ok (s.interpreter.run limits world program).result,
        ⟨(s.interpreter.run limits world program).interpreter,
          s.output ++ (s.interpreter.run limits world program).output⟩) := by
  rw [eval, Interpreter.runText, h]
  rfl

theorem eval_of_error (s : Session) {source : String} {location : Option Location}
    {error : SyntaxError} (h : Program.ofText source location = .error error) :
    s.eval limits world source location = (.error error, s) := by
  rw [eval, Interpreter.runText, h]
  rfl

/-- **Programs compose.** Of two texts that are programs, the text with a line end between them is
the program of the statements of both. To run it is to run the first text and then, only if that one
came to its end, the second one in the same interpreter. A text that is no program changes
nothing. -/
theorem eval_join (s : Session) {p q : String} {location : Option Location}
    {program program' : Program} (hp : Program.ofText p location = .ok program)
    (hq : Program.ofText q (location.map (·.down (newlines p.toList + 1))) = .ok program') :
    (∃ joined, Program.ofText (p ++ "\n" ++ q) location = .ok joined ∧
      joined.statements = program.statements ++ program'.statements) ∧
    s.eval limits world (p ++ "\n" ++ q) location =
      (match s.eval limits world p location with
      | (.ok .done, s') =>
        s'.eval limits world q (location.map (·.down (newlines p.toList + 1)))
      | ended => ended) ∧
    ∀ (source : String) (location : Option Location) (error : SyntaxError),
      Program.ofText source location = .error error →
        s.eval limits world source location = (.error error, s) := by
  obtain ⟨joined, hjoined, hstatements⟩ := Program.ofText_join hp hq
  refine ⟨⟨joined, hjoined, hstatements⟩, ?_, fun _ _ _ h => s.eval_of_error limits world h⟩
  rw [s.eval_of_ok limits world hjoined, s.eval_of_ok limits world hp,
    Interpreter.run_append limits world s.interpreter program program' joined hstatements,
    Run.andThen]
  cases hresult : (s.interpreter.run limits world program).result with
  | done =>
    dsimp only
    rw [eval_of_ok limits world _ hq, Output.append_assoc]
  | returned v => rw [hresult]
  | failed e => rw [hresult]
  | callLimit => rw [hresult]
  | roundLimit => rw [hresult]

theorem eval_join_import :
    let l : Option Location := some ⟨none, 1⟩
    let l' : Option Location := some ⟨none, 2⟩
    let world : World := ⟨"", false, fun _ => false⟩
    Program.ofText "import math;" l = .ok ⟨l, [.importModule l "math"]⟩ ∧
      Program.ofText "print();" l' = .ok ⟨l', [.print l' []]⟩ ∧
      eval .standard world ⟨∅, ∅⟩ ("import math;" ++ "\n" ++ "print();") l =
        match eval .standard world ⟨∅, ∅⟩ "import math;" l with
        | (.ok .done, s') => s'.eval .standard world "print();" l'
        | ended => ended := by
  intro l l' world
  have hp : Program.ofText "import math;" l = .ok ⟨l, [.importModule l "math"]⟩ := by
    have hwords : (Tokens.ofText "import math;" l).words =
        [⟨.keyword .importWord, l⟩, ⟨.identifier "math", l⟩, ⟨.symbol .semicolon, l⟩] := by
      decide +kernel
    refine Program.ofText_eq_ok.mpr ⟨l, by decide +kernel, ?_⟩
    rw [hwords]
    exact ⟨.cons (.importModule l l l "math") .nil, rfl⟩
  have hq : Program.ofText "print();" l' = .ok ⟨l', [.print l' []]⟩ := by
    have hwords : (Tokens.ofText "print();" l').words =
        [⟨.keyword .printWord, l'⟩, ⟨.symbol .lparen, l'⟩, ⟨.symbol .rparen, l'⟩,
          ⟨.symbol .semicolon, l'⟩] := by decide +kernel
    refine Program.ofText_eq_ok.mpr ⟨l', by decide +kernel, ?_⟩
    rw [hwords]
    exact ⟨.cons (.print l' l' l' l' ⟨[], .nil, by simp, rfl⟩) .nil, rfl⟩
  exact ⟨hp, hq, (eval_join .standard world ⟨∅, ∅⟩ hp hq).2.1⟩

end Session

end KLang
