import KLang.Interpreter.Evaluation
import KLang.Program.Statement

/-!
# Running programs

* `Interpreter.run`: executes a program and gives its result, its output and the interpreter after
  it.
* `Interpreter.runText`: the same from the text of a program; a text that is no program runs
  nothing.
* `Interpreter.dump`: the variables and functions as text.
-/

namespace KLang

/-- How a program ended. -/
inductive Result where
  | done
  | returned (value : Value)
  | failed (error : RuntimeError)
  | callLimit
  | roundLimit
  deriving DecidableEq

/-- The result of an execution that was stopped. -/
def Stop.result : Stop → Result
  | .error e => .failed e
  | .callLimit => .callLimit
  | .roundLimit => .roundLimit

/-- The result of an execution that came to an end. -/
def Flow.result : Flow → Result
  | .next => .done
  | .returned v => .returned v

/-- The bounds of an execution: nested calls of functions, and rounds of a loop. -/
structure Limits where
  calls : Nat
  rounds : Nat
  deriving Repr

/-- Limits that a program reaches only if it does not end. -/
def Limits.standard : Limits := ⟨4000, 2 ^ (62 : Nat)⟩

/-- What is there after a program. -/
structure Run where
  result : Result
  interpreter : Interpreter
  output : Output

/-- The text for an execution stopped by a limit. -/
def limitMessage : Result → String
  | .roundLimit => "maximum number of loop rounds exceeded"
  | _ => "maximum recursion depth exceeded"

namespace Interpreter

variable (limits : Limits) (world : World)

/-- The state in which a program begins. -/
def start (i : Interpreter) : State := ⟨i, none, ∅⟩

/-- The execution of statements at the top level. -/
def execution (statements : List Statement) : Eval Flow :=
  execAll world (enterBody world limits.rounds limits.calls) limits.rounds statements

/-- Executes a program. -/
def run (i : Interpreter) (program : Program) : Run :=
  match (execution limits world program.statements).run i.start with
  | .ok flow s => ⟨flow.result, s.toInterpreter, s.output⟩
  | .error stop s => ⟨stop.result, s.toInterpreter, s.output⟩

/-- Executes the program of a text that begins at the given location. -/
def runText (i : Interpreter) (source : String) (location : Option Location) :
    Except SyntaxError Run :=
  (fun program => i.run limits world program) <$> Program.ofText source location

/-- The interpreter with a global variable bound to a value. -/
def letGlobal (i : Interpreter) (name : String) (value : Value) : Interpreter :=
  { i with globals := i.globals.insert name value }

/-- A value in a dump, strings in quotes. -/
def dumpValue : Value → String
  | .string s => "\"" ++ s ++ "\""
  | v => v.text

/-- The global variables and the functions, a line for each. -/
def dump (i : Interpreter) : String :=
  let globals := i.globals.entries.map fun (name, v) => s!"    {name} = " ++ dumpValue v ++ "\n"
  let functions := i.functions.values.map fun f => "    " ++ f.signature ++ "\n"
  "variables:\n" ++ String.join globals ++ "functions:\n" ++ String.join functions

end Interpreter

end KLang
