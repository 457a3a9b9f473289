import KLang.Program.Statement
import KLang.Proofs.Grammar.Expression

/-!
# The grammar of statements

Which tokens form which statements, said without the parser. Declarations and function headers begin
with their words, all other statements that do not begin with a keyword begin with an identifier.

* `IsStatement`, `IsBlock`, `IsStatements`: statements, statements in braces, and statements in a
  row.
* `IsParameters`: parameters with different names.
* `IsProgram`: the statements of a program.
-/

namespace KLang

/-! ## Parts without blocks -/

/-- The tokens form a parameter, which stands at its kind. -/
inductive IsParameter : List Token → Parameter → Prop
  | mk (l l' : Option Location) (kind : Kind) (name : String) :
      IsParameter [⟨.keyword (.kind kind), l⟩, ⟨.identifier name, l'⟩] ⟨l, kind, name⟩

/-- The tokens form parameters with commas between them, whose names are all different. -/
def IsParameters (v : List Token) (ps : List Parameter) : Prop :=
  IsList .comma IsParameter v ps ∧ (ps.map Parameter.name).Nodup

/-- The tokens form the kind of a function, which is `var` if it is not given. -/
inductive IsResultKind : List Token → Kind → Prop
  | absent : IsResultKind [] .var
  | given (l : Option Location) (kind : Kind) : IsResultKind [⟨.keyword (.kind kind), l⟩] kind

/-- The tokens form the kind, name and parameters of a function. -/
inductive IsHeader : List Token → Kind × String × List Parameter → Prop
  | mk {u v : List Token} {kind : Kind} {parameters : List Parameter} (l l' r : Option Location)
      (name : String) (hkind : IsResultKind u kind) (hparameters : IsParameters v parameters) :
      IsHeader (u ++ ⟨.identifier name, l⟩ :: ⟨.symbol .lparen, l'⟩ ::
        (v ++ [⟨.symbol .rparen, r⟩])) (kind, name, parameters)

/-- The tokens form a condition in parentheses. -/
inductive IsCondition : List Token → Expr → Prop
  | mk {u : List Token} {e : Expr} (l r : Option Location) (h : IsExpr .plain u e) :
      IsCondition (⟨.symbol .lparen, l⟩ :: (u ++ [⟨.symbol .rparen, r⟩])) e

/-! ## Statements -/

mutual

/-- The tokens form a statement, which stands at its first word. -/
inductive IsStatement : List Token → Statement → Prop
  | declare {u : List Token} {e : Expr} (l l₁ l₂ r : Option Location) (kind : Kind)
      (name : String) (h : IsExpr .plain u e) :
      IsStatement (⟨.keyword (.kind kind), l⟩ :: ⟨.identifier name, l₁⟩ ::
        ⟨.symbol .assign, l₂⟩ :: (u ++ [⟨.symbol .semicolon, r⟩])) (.declare l kind name e)
  | print {v : List Token} {es : List Expr} (l l₁ r r₁ : Option Location)
      (h : IsList .add (IsExpr .items) v es) :
      IsStatement (⟨.keyword .printWord, l⟩ :: ⟨.symbol .lparen, l₁⟩ ::
        (v ++ [⟨.symbol .rparen, r⟩, ⟨.symbol .semicolon, r₁⟩])) (.print l es)
  | branch {u v w : List Token} {arm : Arm} {arms : List Arm} {otherwise : Option Block}
      (l : Option Location) (harm : IsArm l u arm) (harms : IsArms v arms)
      (hotherwise : IsElse w otherwise) :
      IsStatement (⟨.keyword .ifWord, l⟩ :: (u ++ (v ++ w))) (.branch l (arm :: arms) otherwise)
  | loop {u v : List Token} {condition : Expr} {body : Block} (l : Option Location)
      (hcondition : IsCondition u condition) (hbody : IsBlock v body) :
      IsStatement (⟨.keyword .whileWord, l⟩ :: (u ++ v)) (.loop l condition body)
  | define {u v : List Token} {kind : Kind} {name : String} {parameters : List Parameter}
      {body : Block} (l : Option Location) (hheader : IsHeader u (kind, name, parameters))
      (hbody : IsBlock v body) :
      IsStatement (⟨.keyword .funWord, l⟩ :: (u ++ v)) (.define l ⟨kind, name, parameters, body⟩)
  | returnNothing (l r : Option Location) :
      IsStatement [⟨.keyword .returnWord, l⟩, ⟨.symbol .semicolon, r⟩] (.returnValue l none)
  | returnValue {u : List Token} {e : Expr} (l r : Option Location) (h : IsExpr .plain u e) :
      IsStatement (⟨.keyword .returnWord, l⟩ :: (u ++ [⟨.symbol .semicolon, r⟩]))
        (.returnValue l (some e))
  | importModule (l l₁ r : Option Location) (name : String) :
      IsStatement [⟨.keyword .importWord, l⟩, ⟨.identifier name, l₁⟩, ⟨.symbol .semicolon, r⟩]
        (.importModule l name)
  | evaluate {u : List Token} {e : Expr} (l r : Option Location) (name : String)
      (h : IsExpr .plain (⟨.identifier name, l⟩ :: u) e) :
      IsStatement (⟨.identifier name, l⟩ :: (u ++ [⟨.symbol .semicolon, r⟩])) (.evaluate l e)
  | assign {u v : List Token} {e : Expr} {target : Name} {l' : Option Location}
      (l l₁ r : Option Location) (name : String)
      (htarget : IsExpr .plain (⟨.identifier name, l⟩ :: u) (.variable l' target))
      (hvalue : IsExpr .plain v e) :
      IsStatement (⟨.identifier name, l⟩ ::
        (u ++ ⟨.symbol .assign, l₁⟩ :: (v ++ [⟨.symbol .semicolon, r⟩]))) (.assign l l' target e)

/-- The tokens form a condition and its block, behind an `if` or `elif` at the location. -/
inductive IsArm : Option Location → List Token → Arm → Prop
  | mk {u v : List Token} {condition : Expr} {body : Block} (l : Option Location)
      (hcondition : IsCondition u condition) (hbody : IsBlock v body) :
      IsArm l (u ++ v) ⟨l, condition, body⟩

/-- The tokens form `elif` arms. -/
inductive IsArms : List Token → List Arm → Prop
  | nil : IsArms [] []
  | cons {u v : List Token} {arm : Arm} {arms : List Arm} (l : Option Location)
      (harm : IsArm l u arm) (harms : IsArms v arms) :
      IsArms (⟨.keyword .elifWord, l⟩ :: (u ++ v)) (arm :: arms)

/-- The tokens form an `else` block, or there are none. -/
inductive IsElse : List Token → Option Block → Prop
  | absent : IsElse [] none
  | given {u : List Token} {block : Block} (l : Option Location) (h : IsBlock u block) :
      IsElse (⟨.keyword .elseWord, l⟩ :: u) (some block)

/-- The tokens form statements in braces. -/
inductive IsBlock : List Token → Block → Prop
  | mk {u : List Token} {ss : List Statement} (l r : Option Location) (h : IsStatements u ss) :
      IsBlock (⟨.symbol .lbrace, l⟩ :: (u ++ [⟨.symbol .rbrace, r⟩])) ⟨l, ss⟩

/-- The tokens form statements, one behind the other. -/
inductive IsStatements : List Token → List Statement → Prop
  | nil : IsStatements [] []
  | cons {u v : List Token} {s : Statement} {ss : List Statement} (h : IsStatement u s)
      (more : IsStatements v ss) : IsStatements (u ++ v) (s :: ss)

end

/-- The tokens form a program, which stands at its first word, or at the end of the text if it has
none. -/
def IsProgram (eof : Option Location) (ts : List Token) (program : Program) : Prop :=
  IsStatements ts program.statements ∧ program.location = frontLocation eof ts

end KLang
