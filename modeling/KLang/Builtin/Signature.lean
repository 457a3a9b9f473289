import KLang.Fault

/-!
# Signatures of builtin functions

A signature says which values a builtin function takes and which it gives. Values are converted to
what it takes by `Signature.pack`: integers toward zero, and all remaining strings for a final
array.
-/

namespace KLang

/-- A kind of value on the side of a builtin function. -/
inductive DataKind where
  | int
  | double
  | string
  | strings
  | void
  deriving DecidableEq, Repr

/-- The spelling of a kind in signatures. -/
def DataKind.text : DataKind → String
  | .int => "int"
  | .double => "double"
  | .string => "string"
  | .strings => "string..."
  | .void => "void"

/-- What a builtin function receives for one parameter. -/
inductive Argument where
  | int (i : Int)
  | double (x : Number)
  | string (s : String)
  | strings (ss : List String)
  deriving DecidableEq

/-- The name, parameters and result of a builtin function. -/
structure Signature where
  name : String
  parameters : List DataKind
  result : DataKind
  deriving DecidableEq, Repr

namespace Signature

/-- A signature as it is shown. -/
def text (s : Signature) : String :=
  s.name ++ "(" ++ ", ".intercalate (s.parameters.map DataKind.text) ++ ") -> " ++ s.result.text

/-- The argument for a parameter that takes one value, the one at the given index. -/
def packOne (kind : DataKind) (index : Nat) (value : Value) : Except SignatureFault Argument :=
  match kind, value with
  | .int, .number x =>
    match x.toInt? with
    | .ok i => .ok (.int i)
    | .error _ => .error (.notFinite index value)
  | .int, _ => .error (.notFinite index value)
  | .double, .number x => .ok (.double x)
  | .double, _ => .error (.notNumber index value.type)
  | .string, .string s => .ok (.string s)
  | .string, _ => .error (.notString index value.type)
  | .strings, _ => .error .arrayNotLast
  | .void, _ => .error .voidParameter

/-- The texts of values that must all be strings. -/
def packStrings : List Value → Except SignatureFault (List String)
  | [] => .ok []
  | .string s :: values => (s :: ·) <$> packStrings values
  | value :: _ => .error (.notStringInArray value.type)

/--
The arguments for parameters and values from the given index on; `miscounted` is the fault of a
different number of values.
-/
def packFrom (miscounted : SignatureFault) (index : Nat) :
    List DataKind → List Value → Except SignatureFault (List Argument)
  | [], [] => .ok []
  | [], _ :: _ => .error miscounted
  | [.strings], values => (fun ss => [.strings ss]) <$> packStrings values
  | .strings :: _ :: _, _ => .error .arrayNotLast
  | _ :: _, [] => .error miscounted
  | kind :: kinds, value :: values => do
    let a ← packOne kind index value
    let as ← packFrom miscounted (index + 1) kinds values
    return a :: as

/-- What a function of this signature receives for the given values. -/
def pack (s : Signature) (values : List Value) : Except SignatureFault (List Argument) :=
  packFrom (.argumentCount s.parameters.length values.length) 0 s.parameters values

end Signature

end KLang
