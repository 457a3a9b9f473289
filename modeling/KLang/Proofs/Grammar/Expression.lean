import KLang.Program.Expression

/-!
# The grammar of expressions

Which tokens form which expression, said without the parser. Expressions come in strata from the
loosest to the tightest, and each stratum contains the next one:

* six strata of operators that associate to the left;
* powers, which associate to the right, with a prefixed expression as their base;
* operators before a prefixed expression;
* calls, members and `++` or `--`, all behind names, which may stand in parentheses;
* literals, names and expressions in parentheses.

`Derives` places every node at the token that it is known by, so it fixes the locations too.
-/

namespace KLang

/-! ## The words of operators -/

/-- The word of an operator between two operands. -/
def BinaryOperator.word : BinaryOperator → Lexeme
  | .compare .eq => .symbol .eq
  | .compare .ne => .symbol .ne
  | .compare .le => .symbol .le
  | .compare .ge => .symbol .ge
  | .compare .lt => .symbol .lt
  | .compare .gt => .symbol .gt
  | .bitwise .or => .symbol .bitOr
  | .bitwise .xor => .keyword .xorWord
  | .bitwise .and => .symbol .bitAnd
  | .add => .symbol .add
  | .sub => .symbol .sub
  | .mul => .symbol .mul
  | .div => .symbol .div
  | .rem => .symbol .rem
  | .pow => .symbol .pow

/-- The word of an operator before its operand. -/
def UnaryOperator.word : UnaryOperator → Lexeme
  | .neg => .symbol .sub
  | .not => .symbol .not

/-- The word of an operator behind a variable. -/
def PostfixOperator.word : PostfixOperator → Lexeme
  | .inc => .symbol .inc
  | .dec => .symbol .dec

/-- A word that goes on with the expression in front of it. -/
def Lexeme.Extends (w : Lexeme) : Prop :=
  (∃ op : BinaryOperator, w = op.word) ∨ w = .symbol .lparen ∨ w = .symbol .dot ∨
    ∃ op : PostfixOperator, w = op.word

/-- A word that an expression can begin with. -/
def Lexeme.Begins : Lexeme → Prop
  | .identifier _ | .number .. | .string _ => True
  | .symbol s => s = .lparen ∨ s = .sub ∨ s = .not
  | .keyword _ => False

/-- Tokens that do not go on with the expression in front of them. -/
def Ends (rest : List Token) : Prop := ∀ t ∈ rest.head?, ¬ t.lexeme.Extends

/-! ## Strata -/

/-- The strata of expressions, the loosest first. -/
inductive Stratum where
  | compare
  | bitOr
  | bitXor
  | bitAnd
  | sum
  | product
  | power
  | prefixed
  | postfixed
  | primary
  deriving DecidableEq, Repr

/-- The next tighter stratum. -/
def Stratum.next : Stratum → Stratum
  | compare => bitOr
  | bitOr => bitXor
  | bitXor => bitAnd
  | bitAnd => sum
  | sum => product
  | product => power
  | power => prefixed
  | prefixed => postfixed
  | postfixed => primary
  | primary => primary

/-- The stratum of the operations with an operator. -/
def BinaryOperator.stratum : BinaryOperator → Stratum
  | .compare _ => .compare
  | .bitwise .or => .bitOr
  | .bitwise .xor => .bitXor
  | .bitwise .and => .bitAnd
  | .add | .sub => .sum
  | .mul | .div | .rem => .product
  | .pow => .power

/-- Among printed items, a `+` outside of parentheses is no operator. -/
def Mode.Admits (mode : Mode) (op : BinaryOperator) : Prop := mode = .plain ∨ op ≠ .add

/-! ## Lists with separators -/

/-- Lists of tokens, a separator in front of each. -/
inductive Behind (separator : Symbol) : List (List Token) → List Token → Prop
  | nil : Behind separator [] []
  | cons {u : List Token} {us : List (List Token)} {w : List Token} (l : Option Location)
      (more : Behind separator us w) :
      Behind separator (u :: us) (⟨.symbol separator, l⟩ :: (u ++ w))

/-- Lists of tokens, a separator between each and the next. -/
inductive Separated (separator : Symbol) : List (List Token) → List Token → Prop
  | nil : Separated separator [] []
  | cons {u : List Token} {us : List (List Token)} {w : List Token}
      (more : Behind separator us w) : Separated separator (u :: us) (u ++ w)

/-- The tokens form a list, of which each piece has the property and separators stand between the
pieces. -/
def IsList {α : Type} (separator : Symbol) (IsPiece : List Token → α → Prop) (v : List Token)
    (as : List α) : Prop :=
  ∃ pieces : List (List Token × α), Separated separator (pieces.map Prod.fst) v ∧
    (∀ p ∈ pieces, IsPiece p.1 p.2) ∧ as = pieces.map Prod.snd

/-! ## Derivations -/

/-- The tokens form the expression, which belongs to the stratum. -/
inductive Derives : Mode → Stratum → List Token → Expr → Prop
  | next {mode : Mode} {s : Stratum} {u : List Token} {e : Expr} (h : Derives mode s.next u e) :
      Derives mode s u e
  | binary {mode : Mode} {op : BinaryOperator} {u v : List Token} {left right : Expr}
      (l : Option Location) (leftAssociative : op ≠ .pow) (admits : mode.Admits op)
      (hleft : Derives mode op.stratum u left) (hright : Derives mode op.stratum.next v right) :
      Derives mode op.stratum (u ++ ⟨op.word, l⟩ :: v) (.binary l op left right)
  | power {mode : Mode} {u v : List Token} {base exponent : Expr} (l : Option Location)
      (hbase : Derives mode .prefixed u base) (hexponent : Derives mode .power v exponent) :
      Derives mode .power (u ++ ⟨.symbol .pow, l⟩ :: v) (.binary l .pow base exponent)
  | unary {mode : Mode} {u : List Token} {operand : Expr} (l : Option Location)
      (op : UnaryOperator) (hoperand : Derives mode .prefixed u operand) :
      Derives mode .prefixed (⟨op.word, l⟩ :: u) (.unary l op operand)
  | call {mode : Mode} {u v : List Token} {callee : Name}
      {arguments : List (List Token × Expr)} {l' : Option Location} (l r : Option Location)
      (hcallee : Derives mode .postfixed u (.variable l' callee))
      (separated : Separated .comma (arguments.map Prod.fst) v)
      (harguments : ∀ a ∈ arguments, Derives .plain .compare a.1 a.2) :
      Derives mode .postfixed (u ++ ⟨.symbol .lparen, l⟩ :: (v ++ [⟨.symbol .rparen, r⟩]))
        (.call l callee (arguments.map Prod.snd))
  | member {mode : Mode} {u : List Token} {module : String} {l' : Option Location}
      (l r : Option Location) (name : String)
      (hmodule : Derives mode .postfixed u (.variable l' ⟨none, module⟩)) :
      Derives mode .postfixed (u ++ [⟨.symbol .dot, l⟩, ⟨.identifier name, r⟩])
        (.variable l ⟨some module, name⟩)
  | step {mode : Mode} {u : List Token} {name : String} {l' : Option Location}
      (l : Option Location) (op : PostfixOperator)
      (hname : Derives mode .postfixed u (.variable l' ⟨none, name⟩)) :
      Derives mode .postfixed (u ++ [⟨op.word, l⟩]) (.step l op name)
  | number {mode : Mode} (l : Option Location) (spelling : String) (value : Number) :
      Derives mode .primary [⟨.number spelling value, l⟩] (.number l value)
  | string {mode : Mode} (l : Option Location) (text : String) :
      Derives mode .primary [⟨.string text, l⟩] (.string l text)
  | name {mode : Mode} (l : Option Location) (name : String) :
      Derives mode .primary [⟨.identifier name, l⟩] (.variable l ⟨none, name⟩)
  | grouped {mode : Mode} {u : List Token} {e : Expr} (l r : Option Location)
      (h : Derives .plain .compare u e) :
      Derives mode .primary (⟨.symbol .lparen, l⟩ :: (u ++ [⟨.symbol .rparen, r⟩])) e

/-- The tokens form an expression. -/
abbrev IsExpr (mode : Mode) (u : List Token) (e : Expr) : Prop := Derives mode .compare u e

end KLang
