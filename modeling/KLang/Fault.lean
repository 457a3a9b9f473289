import KLang.Location
import KLang.Number.FreeText
import KLang.Text.Escaped
import KLang.Value.Basic
import KLang.Value.Operator

/-!
# Runtime errors

* `Fault`: why an evaluation failed, and `Fault.message` for the text of each cause.
* `RuntimeError`: a fault with its location and the calls that were active when it arose.
-/

namespace KLang

/-- Why the arguments or the result of a builtin function do not fit its signature. -/
inductive SignatureFault where
  | arrayNotLast
  | arrayResult
  | voidParameter
  | argumentCount (expected received : Nat)
  | notFinite (index : Nat) (value : Value)
  | notNumber (index : Nat) (type : ValueType)
  | notString (index : Nat) (type : ValueType)
  | notStringInArray (type : ValueType)
  deriving DecidableEq

/-- The text of a signature fault. -/
def SignatureFault.message : SignatureFault → String
  | .arrayNotLast => "string array must be the final parameter"
  | .arrayResult => "string array return"
  | .voidParameter => "void parameter"
  | .argumentCount expected received =>
    s!"invalid argument count (expected {expected}, received {received})"
  | .notFinite index value =>
    s!"expected finite number for argument {index}, received " ++ quoted value.text
  | .notNumber index type => s!"expected number for argument {index}, received " ++ type.text
  | .notString index type => s!"expected string for argument {index}, received " ++ type.text
  | .notStringInArray type => "expected string argument, received " ++ type.text

/-- How a builtin function refuses its arguments: their values, what arithmetic makes of them, the
lack of a file to plot, or anything else, named by its class. -/
inductive Refusal where
  | value (message : String)
  | arithmetic (message : String)
  | noFile (path : String)
  | other (name message : String)
  deriving DecidableEq, Repr

/-- The text of a refusal; one without a text of its own is named by its class. -/
def Refusal.message : Refusal → String
  | .value text => if text.isEmpty then "encountered exception ValueError" else text
  | .arithmetic text => if text.isEmpty then "encountered exception ArithmeticError" else text
  | .noFile path => "cannot plot " ++ quoted path ++ ", no such file"
  | .other name text => if text.isEmpty then "encountered exception " ++ name else text

/-- Why an evaluation failed. -/
inductive Fault where
  | expectedNumber (value : Value)
  | unaryOperand (op : UnaryOperator) (type : ValueType)
  | operands (left : ValueType) (op : BinaryOperator) (right : ValueType)
  | divisionByZero
  | moduloByZero
  | zeroToZero
  | nonFiniteOperand (op : Bitwise)
  | postfixOperand (name : String) (type : ValueType)
  | readOnly (name : Name)
  | undefinedVariable (name : String)
  | undefinedConstant (name : Name)
  | undefinedFunction (name : Name)
  | moduleNotImported (name : String)
  | moduleNotFound (name : String)
  | argumentCount (expected received : Nat)
  | signature (function : String) (fault : SignatureFault)
  | noIntegerPart (why : NoIntegerPart)
  | missingInteger
  | missingNumber
  | notInteger (text : String)
  | tooManyDigits (count : Nat)
  | notNumeral (text : String)
  | integerTooLarge
  | refused (why : Refusal)
  deriving DecidableEq

/-- The text of a fault. -/
def Fault.message : Fault → String
  | .expectedNumber value =>
    "expected number, received " ++ value.type.text ++ " " ++ quoted value.text
  | .unaryOperand op type =>
    "attempted unary " ++ op.text ++ " operation with type " ++ quoted type.text
  | .operands left op right =>
    "type-incompatible operation " ++ quoted left.text ++ " " ++ op.text ++ " " ++ quoted right.text
  | .divisionByZero => "division by zero"
  | .moduloByZero => "modulo by zero"
  | .zeroToZero => "zero raised to the power of zero"
  | .nonFiniteOperand op => "bitwise " ++ op.text ++ " operation with non-finite operand"
  | .postfixOperand name type =>
    "postfix operator can only be applied to numeric variables, " ++ quoted name ++ " is a " ++
      type.text
  | .readOnly name => "attempted to modify read-only constant " ++ quoted name.text
  | .undefinedVariable name => "undefined variable " ++ quoted name
  | .undefinedConstant name => "undefined constant " ++ quoted name.text
  | .undefinedFunction name => "undefined function " ++ quoted name.text
  | .moduleNotImported name => "module " ++ quoted name ++ " not imported"
  | .moduleNotFound name => "module " ++ quoted name ++ " not found"
  | .argumentCount expected received =>
    s!"invalid function argument count (expected {expected}, received {received})"
  | .signature function fault =>
    "bad builtin signature for " ++ quoted function ++ ": " ++ fault.message
  | .noIntegerPart why => why.message
  | .missingInteger =>
    "int() argument must be a string, a bytes-like object or a real number, not 'NoneType'"
  | .missingNumber => "float() argument must be a string or a real number, not 'NoneType'"
  | .notInteger text =>
    "invalid literal for int() with base 10: " ++ String.ofList ((escaped text).toList.take 200)
  | .tooManyDigits count =>
    s!"Exceeds the limit ({digitLimit} digits) for integer string conversion: value has {count} " ++
      "digits; use sys.set_int_max_str_digits() to increase the limit"
  | .notNumeral text => "could not convert string to float: " ++ escaped text
  | .integerTooLarge => "int too large to convert to float"
  | .refused why => why.message

/-- A call that was active when an error arose. -/
structure CallSite where
  function : String
  location : Option Location
  deriving DecidableEq, Repr

/-- A fault, where it arose, and the calls whose bodies it left, innermost first. -/
structure RuntimeError where
  fault : Fault
  location : Option Location
  trace : List CallSite
  deriving DecidableEq

end KLang
