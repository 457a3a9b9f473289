import KLang.Program.Basic

/-!
# Parse errors and single tokens

* `ParseFault`, `ParseError`: why a list of tokens is not a program, where, and how much of the list
  was left when that was noticed.
* `Parsed`: a tree read from the front of a list of tokens, and the tokens behind it, which are
  fewer than a given bound; recursion on what remains therefore ends.
* `expect`, `expectName`, `expectKind`: reading one token of a given sort.
-/

namespace KLang

/-- Why tokens do not form a program; `found` is absent at the end of the text. -/
inductive ParseFault where
  | expectedSymbol (symbol : Symbol) (found : Option Lexeme)
  | expectedIdentifier (found : Option Lexeme)
  | expectedExpression (found : Option Lexeme)
  | expectedKind (found : Option Lexeme)
  | unexpectedToken (found : Option Lexeme)
  | callee
  | moduleName
  | postfixTarget
  | assignmentTarget
  | duplicateParameter (name : String)
  deriving DecidableEq

/-- A token in a message. -/
def quotedFound (found : Option Lexeme) : String :=
  quoted ((found.map Lexeme.text).getD "end-of-file")

/-- The text of a parse fault. -/
def ParseFault.message : ParseFault → String
  | .expectedSymbol s found => "expected " ++ quoted s.text ++ ", found " ++ quotedFound found
  | .expectedIdentifier found =>
    "expected " ++ quoted "identifier" ++ ", found " ++ quotedFound found
  | .expectedExpression found => "expected expression, found " ++ quotedFound found
  | .expectedKind found => "expected `num`, `str`, or `var`, found " ++ quotedFound found
  | .unexpectedToken found => "unexpected token " ++ quotedFound found
  | .callee => "expected function name before `(`"
  | .moduleName => "expected module name before `.`"
  | .postfixTarget => "postfix target must be a variable"
  | .assignmentTarget => "assignment target must be a variable"
  | .duplicateParameter name => "duplicate function parameter " ++ quoted name

/-- A parse fault, the token it is about, and the tokens not yet read when it was noticed. -/
structure ParseError where
  fault : ParseFault
  location : Option Location
  rest : List Token
  deriving DecidableEq

/-- A tree, and fewer than `bound` tokens behind it. -/
structure Parsed (α : Type) (bound : Nat) where
  value : α
  rest : List Token
  length_rest : rest.length < bound

/-- A tree read from the front of tokens, or an error. -/
abbrev ParseResult (α : Type) (bound : Nat) := Except ParseError (Parsed α bound)

/-- The same tree under a larger bound. -/
def Parsed.weaken {α : Type} {m n : Nat} (p : Parsed α m) (h : m ≤ n) : Parsed α n :=
  ⟨p.value, p.rest, Nat.lt_of_lt_of_le p.length_rest h⟩

theorem length_lt_succ (ts : List Token) : ts.length < ts.length + 1 := Nat.lt_succ_self _

theorem length_lt_trans {a b c : List Token} (h₁ : b.length < a.length)
    (h₂ : c.length < b.length) : c.length < a.length :=
  Nat.lt_trans h₂ h₁

theorem length_lt_trans₃ {a b c d : List Token} (h₁ : b.length < a.length)
    (h₂ : c.length < b.length) (h₃ : d.length < c.length) : d.length < a.length :=
  Nat.lt_trans h₃ (length_lt_trans h₁ h₂)

theorem length_lt_trans₄ {a b c d e : List Token} (h₁ : b.length < a.length)
    (h₂ : c.length < b.length) (h₃ : d.length < c.length) (h₄ : e.length < d.length) :
    e.length < a.length :=
  Nat.lt_trans h₄ (length_lt_trans₃ h₁ h₂ h₃)

/-- The word at the front of tokens. -/
def front (ts : List Token) : Option Lexeme := ts.head?.map (·.lexeme)

/-- The location at the front of tokens, which is `eof` at their end. -/
def frontLocation (eof : Option Location) (ts : List Token) : Option Location :=
  match ts with
  | t :: _ => t.location
  | [] => eof

/-- A fault about the word at the front of tokens. -/
def failFront {α : Type} (eof : Option Location) (fault : Option Lexeme → ParseFault)
    (ts : List Token) : Except ParseError α :=
  .error ⟨fault (front ts), frontLocation eof ts, ts⟩

variable (eof : Option Location)

/-- Reads a symbol and gives its location. -/
def expect (s : Symbol) (ts : List Token) : ParseResult (Option Location) ts.length :=
  match ts with
  | ⟨.symbol s', l⟩ :: rest =>
    if s' = s then .ok ⟨l, rest, Nat.lt_succ_self _⟩ else failFront eof (.expectedSymbol s) ts
  | _ => failFront eof (.expectedSymbol s) ts

/-- Reads an identifier. -/
def expectName (ts : List Token) : ParseResult String ts.length :=
  match ts with
  | ⟨.identifier name, _⟩ :: rest => .ok ⟨name, rest, Nat.lt_succ_self _⟩
  | _ => failFront eof .expectedIdentifier ts

/-- Reads a kind. -/
def expectKind (ts : List Token) : ParseResult Kind ts.length :=
  match ts with
  | ⟨.keyword (.kind k), _⟩ :: rest => .ok ⟨k, rest, Nat.lt_succ_self _⟩
  | _ => failFront eof .expectedKind ts

end KLang
