import KLang.Builtin.Basic

/-!
# Plots

The builtin functions that draw plots, as the lines of the scripts that they hand to the plotting
command.
-/

namespace KLang

namespace Plotting

/-- The colors of several curves in one plot, used in turn. -/
def colors : List String :=
  ["red", "blue", "green", "magenta", "cyan", "orange", "black", "violet"]

/-- The color of the curve with the given index. -/
def color (index : Nat) : String := colors.getD (index % colors.length) "black"

/-- The lines that name the two axes. -/
def axes : List String := ["set xlabel 'X-axis'", "set ylabel 'Y-axis'"]

/-- A plot of one expression. -/
def curve (expression : String) : List String :=
  [s!"set title 'Plot of {expression}'"] ++ axes ++
    [s!"plot {expression} with lines lw 2 lc rgb 'blue'"]

/-- One of several curves. -/
def titledCurve (expression color : String) : String :=
  s!"{expression} with lines lw 2 lc rgb '{color}' title '{expression}'"

/-- A plot of several expressions. -/
def curves (expressions : List String) : List String :=
  let parts := expressions.zipIdx.map fun (e, i) => titledCurve e (color i)
  ["set title 'Multiple Function Plot'"] ++ axes ++ ["plot " ++ ", ".intercalate parts]

/-- A plot of an expression in two variables. -/
def surface (expression : String) : List String :=
  [s!"set title 'Plot of {expression}'"] ++ axes ++
    ["set zlabel 'Z-axis'", s!"splot {expression} with pm3d"]

/-- A plot of the first two columns of a file. -/
def columns (path : String) : List String :=
  [s!"set title 'Plot of {path}'", "set datafile separator ','"] ++ axes ++
    [s!"plot '{path}' using 1:2 with lines lw 2 lc rgb 'blue'"]

end Plotting

namespace Builtin

/-- A function of one string that draws a plot or refuses. -/
def plotting (name : String) (script : World → String → Except Refusal (List String)) :
    Builtin where
  signature := ⟨name, [.string], .void⟩
  invoke world arguments :=
    match arguments with
    | [.string s] => .plot <$> script world s
    | _ => .ok default

/-- Plots an expression in one variable. -/
def plotFunction : Builtin := plotting "plot_function" fun _ e => .ok (Plotting.curve e)

/-- Plots several expressions in one variable. -/
def plotFunctions : Builtin where
  signature := ⟨"plot_multiple_functions", [.strings], .void⟩
  invoke _ arguments :=
    match arguments with
    | [.strings []] => .error (.value "expected at least one function to plot")
    | [.strings es] => .ok (.plot (Plotting.curves es))
    | _ => .ok default

/-- Plots an expression in two variables. -/
def plotSurface : Builtin := plotting "plot_2vars_function" fun _ e => .ok (Plotting.surface e)

/-- Plots a file of comma-separated values, which must exist. -/
def plotFile : Builtin :=
  plotting "plot_csv" fun world path =>
    if world.isFile path then .ok (Plotting.columns path)
    else .error (.noFile path)

end Builtin

end KLang
