import KLang.Token.Basic

/-!
# Programs

Expressions, statements and functions as trees. Every node carries the location of the token it is
known by: an operator, the parenthesis of a call, the first word of a statement.
-/

namespace KLang

/-- An expression. -/
inductive Expr where
  | number (location : Option Location) (value : Number)
  | string (location : Option Location) (text : String)
  | variable (location : Option Location) (name : Name)
  | unary (location : Option Location) (op : UnaryOperator) (operand : Expr)
  | binary (location : Option Location) (op : BinaryOperator) (left right : Expr)
  | step (location : Option Location) (op : PostfixOperator) (name : String)
  | call (location : Option Location) (callee : Name) (arguments : List Expr)
  deriving Inhabited

/-- The location of an expression. -/
def Expr.location : Expr → Option Location
  | .number l _ => l
  | .string l _ => l
  | .variable l _ => l
  | .unary l .. => l
  | .binary l .. => l
  | .step l .. => l
  | .call l .. => l

/-- A parameter of a function. -/
structure Parameter where
  location : Option Location
  kind : Kind
  name : String
  deriving DecidableEq, Repr, Inhabited

/-- A parameter as shown in signatures. -/
def Parameter.text (p : Parameter) : String := p.kind.text ++ " " ++ p.name

mutual

/-- A statement. -/
inductive Statement where
  | declare (location : Option Location) (kind : Kind) (name : String) (value : Expr)
  | assign (location targetLocation : Option Location) (target : Name) (value : Expr)
  | print (location : Option Location) (items : List Expr)
  | branch (location : Option Location) (arms : List Arm) (otherwise : Option Block)
  | loop (location : Option Location) (condition : Expr) (body : Block)
  | define (location : Option Location) (function : Function)
  | returnValue (location : Option Location) (value : Option Expr)
  | importModule (location : Option Location) (name : String)
  | evaluate (location : Option Location) (value : Expr)

/-- Statements in braces. -/
structure Block where
  location : Option Location
  statements : List Statement

/-- A condition and the block that it guards. -/
structure Arm where
  location : Option Location
  condition : Expr
  body : Block

/-- A function as it is declared. -/
structure Function where
  kind : Kind
  name : String
  parameters : List Parameter
  body : Block

end

instance : Inhabited Block := ⟨⟨none, []⟩⟩

/-- The name, parameters and kind of a function. -/
def Function.signature (f : Function) : String :=
  f.name ++ "(" ++ ", ".intercalate (f.parameters.map Parameter.text) ++ ") -> " ++ f.kind.text

/-- The location of a statement. -/
def Statement.location : Statement → Option Location
  | .declare l .. => l
  | .assign l .. => l
  | .print l _ => l
  | .branch l .. => l
  | .loop l .. => l
  | .define l _ => l
  | .returnValue l _ => l
  | .importModule l _ => l
  | .evaluate l _ => l

end KLang
