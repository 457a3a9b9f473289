import KLang.Builtin.Trig
import KLang.Program.Basic

/-!
# The state of an interpreter

* `Interpreter`: what lasts from one program to the next, the global variables, the functions and
  the imported modules.
* `Output`: what a program has written and drawn.
* `State`: an interpreter at work, with the variables of the body that is being executed.
* `Eval`: evaluations, which change the state and may stop early; a stopped evaluation keeps the
  state it had reached.
-/

namespace KLang

/-- A plot: the words of the command that draws it, and the script handed to the command. -/
structure Plot where
  command : List String
  script : String
  deriving DecidableEq, Repr

/-- What a program has written to its two streams, and the plots it has drawn. -/
structure Output where
  stdout : String
  stderr : String
  plots : List Plot
  deriving DecidableEq, Repr

instance : EmptyCollection Output := ⟨⟨"", "", []⟩⟩
instance : Inhabited Output := ⟨∅⟩
instance : Append Output :=
  ⟨fun o o' => ⟨o.stdout ++ o'.stdout, o.stderr ++ o'.stderr, o.plots ++ o'.plots⟩⟩

/-- What lasts from one program to the next. -/
structure Interpreter where
  globals : Table Value
  functions : Table Function
  imported : Table Library

instance : EmptyCollection Interpreter := ⟨⟨∅, ∅, ∅⟩⟩
instance : Inhabited Interpreter := ⟨∅⟩

namespace Interpreter

/-- The constant of a name in the imported modules, the first import first. -/
def constant? (i : Interpreter) (name : String) : Option Number :=
  i.imported.values.findSome? (·.constants.get? name)

/-- The builtin function of a name in the imported modules, the first import first. -/
def builtin? (i : Interpreter) (name : String) : Option Builtin :=
  i.imported.values.findSome? (·.builtins.get? name)

end Interpreter

/--
An interpreter at work. `locals` holds the variables of the body that is being executed; there are
none at the top level, where variables are global.
-/
structure State extends Interpreter where
  locals : Option (Table Value)
  output : Output

namespace State

/-- The value of a variable: of the current body if it has one of this name, or else global. -/
def lookup? (s : State) (name : String) : Option Value :=
  match s.locals.bind (·.get? name) with
  | some v => some v
  | none => s.globals.get? name

/-- The state with a variable declared in the current body. -/
def declare (s : State) (name : String) (value : Value) : State :=
  match s.locals with
  | some t => { s with locals := some (t.insert name value) }
  | none => { s with globals := s.globals.insert name value }

/-- The state with another value for the variable that `lookup?` finds. -/
def store (s : State) (name : String) (value : Value) : State :=
  match s.locals with
  | some t =>
    if t.contains name then { s with locals := some (t.insert name value) }
    else { s with globals := s.globals.insert name value }
  | none => { s with globals := s.globals.insert name value }

/-- The state with the variables of another body, or at the top level. -/
def inside (s : State) (locals : Option (Table Value)) : State := { s with locals }

/-- The state with a function declared, in the place of the one of this name if there is one. -/
def define (s : State) (f : Function) : State :=
  { s with functions := s.functions.insert f.name f }

/-- The state with a module imported. -/
def addImport (s : State) (name : String) (library : Library) : State :=
  { s with imported := s.imported.insert name library }

/-- The fault of changing a name that is bound to no variable. -/
def unassignable (s : State) (name : String) : Fault :=
  match s.constant? name with
  | some _ => .readOnly ⟨none, name⟩
  | none => .undefinedVariable name

/-- The state after a line of output. -/
def printLine (s : State) (line : String) : State :=
  { s with output := { s.output with stdout := s.output.stdout ++ line ++ "\n" } }

end State

/-! ## Evaluations -/

/-- Why an evaluation stopped: an error of the program, or a limit of the interpreter. -/
inductive Stop where
  | error (e : RuntimeError)
  | callLimit
  | roundLimit
  deriving DecidableEq

/-- A stop that has left the body of a function: the trace of an error gets an entry. -/
def Stop.through (site : CallSite) : Stop → Stop
  | .error e => .error { e with trace := e.trace ++ [site] }
  | stop => stop

/-- An evaluation. -/
abbrev Eval (α : Type) := EStateM Stop State α

namespace Eval

/-- Stops with a fault at a location. -/
def fault {α : Type} (location : Option Location) (f : Fault) : Eval α :=
  throw (.error ⟨f, location, []⟩)

/-- Goes on with a result, or stops with its fault. -/
def ofExcept {α : Type} (location : Option Location) : Except Fault α → Eval α
  | .ok a => pure a
  | .error f => fault location f

end Eval

end KLang
