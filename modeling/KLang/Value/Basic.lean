import KLang.Number.Text

/-!
# Values and names

The values of a running program, the names it uses, and how both are quoted in messages.
-/

namespace KLang

/-- Text between backticks, or between double quotes if it has a backtick itself. -/
def quoted (text : String) : String :=
  if text.contains '`' then "\"" ++ text ++ "\"" else "`" ++ text ++ "`"

/-- A value: the absence of a result, a number or a string. -/
inductive Value where
  | nil
  | number (x : Number)
  | string (s : String)
  deriving DecidableEq, Inhabited

/-- The type of a value. -/
inductive ValueType where
  | nil
  | number
  | string
  deriving DecidableEq, Repr

/-- The name of a type in messages. -/
def ValueType.text : ValueType → String
  | .nil => "nil"
  | .number => "number"
  | .string => "string"

namespace Value

/-- The type of a value. -/
def type : Value → ValueType
  | .nil => .nil
  | .number _ => .number
  | .string _ => .string

/-- The text of a value; the absent value reads as zero. -/
def text : Value → String
  | .nil => "0"
  | .number x => x.text
  | .string s => s

/-- Whether a condition with this value holds: it is neither absent, zero nor empty. -/
def truthy : Value → Bool
  | .nil => false
  | .number x => !x.isZero
  | .string s => !s.isEmpty

/-- The value as a quantity; the absent value is zero, and a string is none. -/
def number? : Value → Option Number
  | .nil => some 0
  | .number x => some x
  | .string _ => none

end Value

/-- The kind that a variable, parameter or function is declared with. -/
inductive Kind where
  | num
  | str
  | var
  deriving DecidableEq, Repr, Inhabited

/-- The spelling of a kind. -/
def Kind.text : Kind → String
  | .num => "num"
  | .str => "str"
  | .var => "var"

/-- A name, with the module it is looked up in if that is given. -/
structure Name where
  module : Option String
  base : String
  deriving DecidableEq, Repr, Inhabited

/-- The spelling of a name. -/
def Name.text (n : Name) : String :=
  match n.module with
  | none => n.base
  | some m => m ++ "." ++ n.base

end KLang
