/-!
# Operators

The operators of expressions and their spelling.
-/

namespace KLang

/-- An operator before its operand. -/
inductive UnaryOperator where
  | neg
  | not
  deriving DecidableEq, Repr

/-- The spelling of an operator before its operand. -/
def UnaryOperator.text : UnaryOperator → String
  | .neg => "-"
  | .not => "!"

/-- An operator after a variable, which changes it by one. -/
inductive PostfixOperator where
  | inc
  | dec
  deriving DecidableEq, Repr

/-- A comparison of two quantities. -/
inductive Comparison where
  | lt
  | gt
  | eq
  | ne
  | le
  | ge
  deriving DecidableEq, Repr

/-- The spelling of a comparison. -/
def Comparison.text : Comparison → String
  | .lt => "<"
  | .gt => ">"
  | .eq => "=="
  | .ne => "!="
  | .le => "<="
  | .ge => ">="

/-- A bitwise operation on two words. -/
inductive Bitwise where
  | and
  | or
  | xor
  deriving DecidableEq, Repr

/-- The spelling of a bitwise operation. -/
def Bitwise.text : Bitwise → String
  | .and => "&"
  | .or => "|"
  | .xor => "xor"

/-- An operator between two operands. -/
inductive BinaryOperator where
  | add
  | sub
  | mul
  | div
  | rem
  | pow
  | bitwise (op : Bitwise)
  | compare (op : Comparison)
  deriving DecidableEq, Repr

/-- The spelling of an operator between two operands. -/
def BinaryOperator.text : BinaryOperator → String
  | .add => "+"
  | .sub => "-"
  | .mul => "*"
  | .div => "/"
  | .rem => "%"
  | .pow => "^"
  | .bitwise op => op.text
  | .compare op => op.text

end KLang
