import KLang.Interpreter.State
import KLang.Text.Words

/-!
# Calling builtin functions

A builtin function receives its arguments packed by its signature. The plot that it may ask for is
drawn by the command of the surroundings, and a command that cannot be started leaves a warning.
-/

namespace KLang

/-- The words of the standard plotting command. -/
def standardPlotCommand : List String := ["gnuplot", "-persistent"]

/-- The words of the plotting command. -/
def World.plotWords (w : World) : Except WordFault (List String) :=
  (fun words => if words.isEmpty then standardPlotCommand else words) <$> Words.split w.plotCommand

namespace Output

/-- The output after a plot has been drawn, or after the warning that it could not be. -/
def plot (o : Output) (canPlot : Bool) (command script : List String) : Output :=
  if canPlot then
    { o with plots := o.plots ++ [⟨command, String.join (script.map (· ++ "\n"))⟩] }
  else
    let name := quoted (" ".intercalate command)
    { o with stderr := o.stderr ++ "warning: " ++ name ++ " not found, cannot plot\n" }

end Output

variable (world : World)

/-- Draws a plot. -/
def drawPlot (location : Option Location) (script : List String) : Eval Unit := do
  match world.plotWords with
  | .ok command => modify fun s => { s with output := s.output.plot world.canPlot command script }
  | .error why => Eval.fault location (.refused (.value why.message))

/-- The value of a builtin function at the given arguments. -/
def callBuiltin (location : Option Location) (b : Builtin) (arguments : List Value) :
    Eval Value := do
  let name := b.signature.name
  match b.signature.pack arguments with
  | .error f => Eval.fault location (.signature name f)
  | .ok packed =>
    match b.invoke world packed with
    | .error why => Eval.fault location (.refused why)
    | .ok (.reply r) => Eval.ofExcept location (r.unpack name b.signature.result)
    | .ok (.plot script) =>
      drawPlot world location script
      Eval.ofExcept location (Reply.nothing.unpack name b.signature.result)

end KLang
