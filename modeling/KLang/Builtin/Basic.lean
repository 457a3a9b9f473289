import KLang.Builtin.Signature
import KLang.Number.Word
import KLang.Table

/-!
# Builtin functions

* `Action`: what a builtin function asks for, a reply or a plot.
* `Builtin`: a signature and the function behind it.
* `Reply.unpack`: the value of a reply, as the signature's result.
* `Library`: a module that programs can import.
-/

namespace KLang

/-- What a builtin function gives back: nothing, a number, a text, or anything else, of which only
matters what it is converted to. -/
inductive Reply where
  | nothing
  | number (x : Number)
  | text (s : String)
  | other (int : Except Refusal Int) (double : Except Refusal Number)
      (string : Except Refusal String)
  deriving Inhabited

/-- What a builtin function does: it replies, or it draws a plot from the lines of a script. -/
inductive Action where
  | reply (r : Reply)
  | plot (script : List String)
  deriving Inhabited

/-- What builtin functions can find out about their surroundings. -/
structure World where
  /-- The command that draws plots, empty for the standard one. -/
  plotCommand : String
  /-- Whether the command can be started. -/
  canPlot : Bool
  /-- Whether a path names a regular file. -/
  isFile : String → Bool

instance : Inhabited World := ⟨⟨"", true, fun _ => false⟩⟩

/-- A function that programs can import. -/
structure Builtin where
  signature : Signature
  invoke : World → List Argument → Except Refusal Action

namespace Reply

/-- A number with a `.0` behind a whole number in plain notation. -/
def floatText (x : Number) : String :=
  let cs := x.chars
  String.ofList (if cs.all fun c => c.isDigit || c == '-' then cs ++ ['.', '0'] else cs)

/-- The number nearest to an integer, unless that is infinite. -/
def finiteInt (i : Int) : Except Fault Value :=
  let x := Number.ofInt i
  if x.isFinite then .ok (.number x) else .error .integerTooLarge

/-- The value of an integer result. -/
def unpackInt : Reply → Except Fault Value
  | .nothing => .error .missingInteger
  | .number x =>
    match x.toInt? with
    | .ok i => .ok (.number (.ofInt i))
    | .error why => .error (.noIntegerPart why)
  | .text s =>
    match integerOf s with
    | .error .malformed => .error (.notInteger s)
    | .error (.tooLong digits) => .error (.tooManyDigits digits)
    | .ok i => finiteInt i
  | .other int _ _ =>
    match int with
    | .error why => .error (.refused why)
    | .ok i => finiteInt i

/-- The value of a result that is a number. -/
def unpackDouble : Reply → Except Fault Value
  | .nothing => .error .missingNumber
  | .number x => .ok (.number x)
  | .text s =>
    match Number.ofFreeText? s with
    | some x => .ok (.number x)
    | none => .error (.notNumeral s)
  | .other _ double _ =>
    match double with
    | .error why => .error (.refused why)
    | .ok x => .ok (.number x)

/-- The value of a result that is a string. -/
def unpackString : Reply → Except Fault Value
  | .nothing => .ok (.string "None")
  | .number x => .ok (.string (floatText x))
  | .text s => .ok (.string s)
  | .other _ _ string =>
    match string with
    | .error why => .error (.refused why)
    | .ok s => .ok (.string s)

/-- The value of a reply of the named function, for a result of the given kind. -/
def unpack (function : String) (kind : DataKind) (reply : Reply) : Except Fault Value :=
  match kind with
  | .int => reply.unpackInt
  | .double => reply.unpackDouble
  | .string => reply.unpackString
  | .strings => .error (.signature function .arrayResult)
  | .void => .ok .nil

end Reply

namespace Builtin

/-- A function of one number. -/
def ofNumber (name : String) (result : DataKind) (f : Number → Except Refusal Number) :
    Builtin where
  signature := ⟨name, [.double], result⟩
  invoke _ arguments :=
    match arguments with
    | [.double x] => (fun y => .reply (.number y)) <$> f x
    | _ => .ok default

/-- A total function from numbers to numbers. -/
def function (name : String) (f : Number → Number) : Builtin :=
  ofNumber name .double fun x => .ok (f x)

/-- A property of numbers, `1` where it holds and `0` elsewhere. -/
def property (name : String) (p : Number → Bool) : Builtin :=
  ofNumber name .int fun x => .ok (.ofBool (p x))

/-- A function from numbers to numbers that refuses arguments outside of its domain. -/
def guardedFunction (name : String) (outside : Number → Bool) (complaint : String)
    (f : Number → Number) : Builtin :=
  ofNumber name .double fun x => if outside x then .error (.value complaint) else .ok (f x)

end Builtin

/-- A module that programs can import: functions and constants, in the order of their definition. -/
structure Library where
  name : String
  builtins : Table Builtin
  constants : Table Number

/-- The library of the given functions and constants. -/
def Library.ofLists (name : String) (builtins : List Builtin) (constants : List (String × Number)) :
    Library :=
  ⟨name, .ofList (builtins.map fun b => (b.signature.name, b)), .ofList constants⟩

end KLang
