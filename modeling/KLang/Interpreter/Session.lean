import KLang.Interpreter.Run

/-!
# Sessions

A session runs one text after the other in the same interpreter.
-/

namespace KLang

/-- An interpreter, and what has been written in it so far. -/
structure Session where
  interpreter : Interpreter
  output : Output

/-- Executes the program of a text that begins at the given location. A text that is no program
leaves the session as it is. -/
def Session.eval (limits : Limits) (world : World) (s : Session) (source : String)
    (location : Option Location) : Except SyntaxError Result × Session :=
  match s.interpreter.runText limits world source location with
  | .ok run => (.ok run.result, ⟨run.interpreter, s.output ++ run.output⟩)
  | .error e => (.error e, s)

end KLang
