import KLang.Fault
import KLang.Number.Power
import KLang.Number.Word

/-!
# Operations on values

* `Value.coerce`: the conversion to a declared kind.
* `UnaryOperator.apply`, `BinaryOperator.apply`: the operators. Strings can be joined and tested for
  equality; all other operators take quantities, among which the absent value counts as zero.
* `Value.step`: the change that `++` and `--` make.
-/

namespace KLang

/--
The value as the given kind holds it: a number, the text of the value, or the value itself. The
absent value becomes zero.
-/
def Value.coerce (kind : Kind) (value : Value) : Except Fault Value :=
  match kind, value with
  | .str, v => .ok (.string v.text)
  | _, .nil => .ok (.number 0)
  | .num, .string s => .error (.expectedNumber (.string s))
  | _, v => .ok v

/-- The value of a variable after `++` or `--`. -/
def Number.step (op : PostfixOperator) (x : Number) : Number :=
  match op with
  | .inc => x + 1
  | .dec => x - 1

/-- The value of a unary operation. -/
def UnaryOperator.apply (op : UnaryOperator) (value : Value) : Except Fault Value :=
  match op, value with
  | .not, v => .ok (.number (.ofBool (!v.truthy)))
  | .neg, .nil => .ok (.number 0)
  | .neg, .number x => .ok (.number x.neg)
  | .neg, .string _ => .error (.unaryOperand .neg .string)

/-- Whether a comparison of two quantities holds; only `!=` holds of `nan`. -/
def Comparison.holds (op : Comparison) (x y : Number) : Bool :=
  match op with
  | .lt => x.lt y
  | .gt => y.lt x
  | .eq => x.eq y
  | .ne => !x.eq y
  | .le => x.le y
  | .ge => y.le x

/-- The result of a bitwise operation on the words of two numbers. -/
def Bitwise.apply (op : Bitwise) (x y : Number) : Number :=
  match op with
  | .and => x.bitAnd y
  | .or => x.bitOr y
  | .xor => x.bitXor y

/--
The power of two quantities. A zero to a negative power is positive infinity. A power of finite
numbers that overflows is negative infinity only if the base is negative and the exponent leaves
remainder `1` by `2`, which no negative exponent does.
-/
def Number.power (x y : Number) : Number :=
  if x.isZero && y.lt 0 then .infinite false
  else
    let r := x.pow y
    if r.isInfinite && x.isFinite && y.isFinite then .infinite (x.lt 0 && (y % 2).eq 1) else r

namespace BinaryOperator

/-- The result of an operator on two quantities. -/
def onNumbers (op : BinaryOperator) (x y : Number) : Except Fault Number :=
  match op with
  | .add => .ok (x + y)
  | .sub => .ok (x - y)
  | .mul => .ok (x * y)
  | .div => if y.isZero then .error .divisionByZero else .ok (x / y)
  | .rem => if y.isZero then .error .moduloByZero else .ok (x % y)
  | .pow => if x.isZero && y.isZero then .error .zeroToZero else .ok (x.power y)
  | .bitwise op =>
    if x.isFinite && y.isFinite then .ok (op.apply x y) else .error (.nonFiniteOperand op)
  | .compare op => .ok (.ofBool (op.holds x y))

/-- The result of an operator on two strings, if it has one. -/
def onStrings? (op : BinaryOperator) (s t : String) : Option Value :=
  match op with
  | .add => some (.string (s ++ t))
  | .compare .eq => some (.number (.ofBool (s == t)))
  | .compare .ne => some (.number (.ofBool (s != t)))
  | _ => none

/-- The value of a binary operation. -/
def apply (op : BinaryOperator) (left right : Value) : Except Fault Value :=
  let mismatch : Except Fault Value := .error (.operands left.type op right.type)
  match left, right with
  | .string s, .string t =>
    match op.onStrings? s t with
    | some v => .ok v
    | none => mismatch
  | l, r =>
    match l.number?, r.number? with
    | some x, some y => .number <$> op.onNumbers x y
    | _, _ => mismatch

theorem apply_numbers (op : BinaryOperator) (x y : Number) :
    op.apply (.number x) (.number y) = .number <$> op.onNumbers x y := rfl

end BinaryOperator

end KLang
