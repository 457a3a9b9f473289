import KLang.Program.Parsing

/-!
# Reading expressions

An expression is an operand and what follows it, read as long as the next word binds tighter than a
given bound. The operand on the right of an operator is read in the same way under a bound of its
own.

* `Precedence`: how tightly words bind, loosest first.
* `Follower`: what can follow an operand, a binary operator, arguments, the name of a member, or
  `++` and `--`.
* `Mode`: in the items of a print statement a `+` outside of parentheses separates items and binds
  nothing.
* `parseExpr`: an expression; `parseItems`: expressions between separators, up to a `)`.
-/

namespace KLang

/-- How tightly a word binds the operand in front of it. -/
inductive Precedence where
  | lowest
  | compare
  | bitOr
  | bitXor
  | bitAnd
  | sum
  | product
  | power
  | prefixed
  | postfixed
  deriving DecidableEq, Repr

namespace Precedence

/-- The place of a precedence from the loosest to the tightest. -/
def rank : Precedence → Nat
  | lowest => 0
  | compare => 1
  | bitOr => 2
  | bitXor => 3
  | bitAnd => 4
  | sum => 5
  | product => 6
  | power => 7
  | prefixed => 8
  | postfixed => 9

instance : LT Precedence := ⟨fun p q => p.rank < q.rank⟩
instance : LE Precedence := ⟨fun p q => p.rank ≤ q.rank⟩
instance (p q : Precedence) : Decidable (p < q) := inferInstanceAs (Decidable (p.rank < q.rank))
instance (p q : Precedence) : Decidable (p ≤ q) := inferInstanceAs (Decidable (p.rank ≤ q.rank))

end Precedence

/-- Whether a `+` outside of parentheses is an operator or separates printed items. -/
inductive Mode where
  | plain
  | items
  deriving DecidableEq, Repr

/-- The operator between two operands that a symbol stands for. -/
def Symbol.binary? : Symbol → Option BinaryOperator
  | .eq => some (.compare .eq)
  | .ne => some (.compare .ne)
  | .le => some (.compare .le)
  | .ge => some (.compare .ge)
  | .lt => some (.compare .lt)
  | .gt => some (.compare .gt)
  | .add => some .add
  | .sub => some .sub
  | .mul => some .mul
  | .div => some .div
  | .rem => some .rem
  | .pow => some .pow
  | .bitAnd => some (.bitwise .and)
  | .bitOr => some (.bitwise .or)
  | _ => none

/-- The operator between two operands that a word stands for. -/
def Lexeme.binary? : Lexeme → Option BinaryOperator
  | .symbol s => s.binary?
  | .keyword .xorWord => some (.bitwise .xor)
  | _ => none

/-- The operator before its operand that a word stands for. -/
def Lexeme.unary? : Lexeme → Option UnaryOperator
  | .symbol .sub => some .neg
  | .symbol .not => some .not
  | _ => none

/-- How tightly an operator binds. -/
def BinaryOperator.precedence : BinaryOperator → Precedence
  | .compare _ => .compare
  | .bitwise .or => .bitOr
  | .bitwise .xor => .bitXor
  | .bitwise .and => .bitAnd
  | .add | .sub => .sum
  | .mul | .div | .rem => .product
  | .pow => .power

/-- The bound for the right operand. What binds as tightly as the operator itself is left to the
next round; only a power is read up to and including further powers. -/
def BinaryOperator.rightBound : BinaryOperator → Precedence
  | .pow => .product
  | op => op.precedence

/-- What can follow an operand. -/
inductive Follower where
  | binary (op : BinaryOperator)
  | call
  | member
  | step (op : PostfixOperator)
  deriving DecidableEq, Repr

/-- The follower that a word begins. -/
def Lexeme.follower? : Lexeme → Option Follower
  | .symbol .lparen => some .call
  | .symbol .dot => some .member
  | .symbol .inc => some (.step .inc)
  | .symbol .dec => some (.step .dec)
  | l => l.binary?.map .binary

/-- How tightly a follower binds. -/
def Follower.precedence (mode : Mode) : Follower → Precedence
  | .binary .add => if mode = .items then .lowest else .sum
  | .binary op => op.precedence
  | _ => .postfixed

variable (eof : Option Location)

mutual

/-- An operand and what follows it as long as that binds tighter than the bound. -/
def parseAbove (mode : Mode) (bound : Precedence) (ts : List Token) :
    ParseResult Expr ts.length := do
  let ⟨operand, rest, h⟩ ← parseOperand mode ts
  let e ← parseFollowers mode bound operand rest
  return e.weaken h
termination_by (ts.length, 1)

/-- A literal, a name, an expression in parentheses, or an operand with an operator before it. -/
def parseOperand (mode : Mode) (ts : List Token) : ParseResult Expr ts.length :=
  match ts with
  | ⟨.identifier name, location⟩ :: rest =>
    return ⟨.variable location ⟨none, name⟩, rest, Nat.lt_succ_self _⟩
  | ⟨.number _ value, location⟩ :: rest =>
    return ⟨.number location value, rest, Nat.lt_succ_self _⟩
  | ⟨.string text, location⟩ :: rest => return ⟨.string location text, rest, Nat.lt_succ_self _⟩
  | ⟨.symbol .lparen, _⟩ :: rest => do
    let ⟨e, rest, h⟩ ← parseAbove .plain .lowest rest
    let ⟨_, rest, h'⟩ ← expect eof .rparen rest
    return ⟨e, rest, by simp only [List.length_cons]; omega⟩
  | ⟨l, location⟩ :: rest =>
    match l.unary? with
    | some op => do
      let ⟨operand, rest, h⟩ ← parseAbove mode .prefixed rest
      return ⟨.unary location op operand, rest, Nat.lt_succ_of_lt h⟩
    | none => failFront eof .expectedExpression (⟨l, location⟩ :: rest)
  | [] => failFront eof .expectedExpression []
termination_by (ts.length, 0)

/-- The followers of an operand as long as they bind tighter than the bound. -/
def parseFollowers (mode : Mode) (bound : Precedence) (left : Expr) (ts : List Token) :
    ParseResult Expr (ts.length + 1) :=
  match ts with
  | [] => return ⟨left, [], Nat.lt_succ_self _⟩
  | ⟨l, location⟩ :: rest =>
    match l.follower? with
    | none => return ⟨left, ⟨l, location⟩ :: rest, Nat.lt_succ_self _⟩
    | some f =>
      if bound < f.precedence mode then do
        let ⟨e, rest, h⟩ ← parseFollower mode f left ⟨l, location⟩ rest
        let e ← parseFollowers mode bound e rest
        return e.weaken (by simp only [List.length_cons]; omega)
      else return ⟨left, ⟨l, location⟩ :: rest, Nat.lt_succ_self _⟩
termination_by (ts.length, 0)

/-- One follower of an operand, behind the word that it begins with. -/
def parseFollower (mode : Mode) (f : Follower) (left : Expr) (word : Token) (ts : List Token) :
    ParseResult Expr (ts.length + 1) :=
  match f with
  | .binary op => do
    let ⟨right, rest, h⟩ ← parseAbove mode op.rightBound ts
    return ⟨.binary word.location op left right, rest, Nat.lt_succ_of_lt h⟩
  | .call =>
    match left with
    | .variable _ callee => do
      let ⟨arguments, rest, h⟩ ← parseItems .plain .comma ts
      return ⟨.call word.location callee arguments, rest, Nat.lt_succ_of_lt h⟩
    | _ => .error ⟨.callee, word.location, word :: ts⟩
  | .member =>
    match left with
    | .variable _ ⟨none, module⟩ => do
      let ⟨name, rest, h⟩ ← expectName eof ts
      return ⟨.variable word.location ⟨some module, name⟩, rest, Nat.lt_succ_of_lt h⟩
    | _ => .error ⟨.moduleName, word.location, ts⟩
  | .step op =>
    match left with
    | .variable _ ⟨none, name⟩ =>
      return ⟨.step word.location op name, ts, Nat.lt_succ_self _⟩
    | _ => .error ⟨.postfixTarget, word.location, ts⟩
termination_by (ts.length, 3)

/-- The expressions up to a `)`, with a separator between each and the next. -/
def parseItems (mode : Mode) (separator : Symbol) (ts : List Token) :
    ParseResult (List Expr) ts.length :=
  match ts with
  | ⟨.symbol .rparen, _⟩ :: rest => return ⟨[], rest, Nat.lt_succ_self _⟩
  | ts => do
    let ⟨e, rest, h⟩ ← parseAbove mode .lowest ts
    let ⟨es, rest, h'⟩ ← parseMoreItems mode separator rest
    return ⟨e :: es, rest, Nat.lt_trans h' h⟩
termination_by (ts.length, 2)

/-- The expressions up to a `)`, each behind a separator. -/
def parseMoreItems (mode : Mode) (separator : Symbol) (ts : List Token) :
    ParseResult (List Expr) ts.length :=
  match ts with
  | ⟨.symbol .rparen, _⟩ :: rest => return ⟨[], rest, Nat.lt_succ_self _⟩
  | ts => do
    let ⟨_, rest, h⟩ ← expect eof separator ts
    let ⟨e, rest, h'⟩ ← parseAbove mode .lowest rest
    let ⟨es, rest, h''⟩ ← parseMoreItems mode separator rest
    return ⟨e :: es, rest, by omega⟩
termination_by (ts.length, 0)

end

/-- An expression at the front of tokens. -/
def parseExpr (mode : Mode) (ts : List Token) : ParseResult Expr ts.length :=
  parseAbove eof mode .lowest ts

end KLang
