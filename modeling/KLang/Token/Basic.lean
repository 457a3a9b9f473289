import KLang.Fault

/-!
# Tokens

The words of a program: identifiers, literals, keywords and symbols, each with the location of its
first character.

* `Lexeme`, `Token`: a word, and a word at a place.
* `LexError`: why the text of a program cannot be split into words.
* `Tokens`: what splitting gives, the words up to the end of the text or up to the first error.
-/

namespace KLang

/-- A word with a fixed meaning. -/
inductive Keyword where
  | kind (k : Kind)
  | ifWord
  | elifWord
  | elseWord
  | whileWord
  | printWord
  | funWord
  | returnWord
  | importWord
  | xorWord
  deriving DecidableEq, Repr

/-- The spelling of a keyword. -/
def Keyword.text : Keyword → String
  | .kind k => k.text
  | .ifWord => "if"
  | .elifWord => "elif"
  | .elseWord => "else"
  | .whileWord => "while"
  | .printWord => "print"
  | .funWord => "fun"
  | .returnWord => "return"
  | .importWord => "import"
  | .xorWord => "xor"

/-- All keywords. -/
def Keyword.all : List Keyword :=
  [.kind .num, .kind .str, .kind .var, .ifWord, .elifWord, .elseWord, .whileWord, .printWord,
    .funWord, .returnWord, .importWord, .xorWord]

/-- The keyword with the given spelling. -/
def Keyword.ofText? (s : String) : Option Keyword := Keyword.all.find? (·.text == s)

/-- The name of a keyword's class in token listings. -/
def Keyword.className : Keyword → String
  | .kind .num => "NUM"
  | .kind .str => "STR"
  | .kind .var => "VAR"
  | .ifWord => "IF"
  | .elifWord => "ELIF"
  | .elseWord => "ELSE"
  | .whileWord => "WHILE"
  | .printWord => "PRINT"
  | .funWord => "FUN"
  | .returnWord => "RETURN"
  | .importWord => "IMPORT"
  | .xorWord => "XOR"

/-- An operator or delimiter. -/
inductive Symbol where
  | eq
  | ne
  | le
  | ge
  | inc
  | dec
  | assign
  | lt
  | gt
  | not
  | add
  | sub
  | mul
  | div
  | rem
  | pow
  | bitAnd
  | bitOr
  | comma
  | semicolon
  | dot
  | lparen
  | rparen
  | lbrace
  | rbrace
  deriving DecidableEq, Repr

/-- All symbols, the longer spellings first. -/
def Symbol.all : List Symbol :=
  [.eq, .ne, .le, .ge, .inc, .dec, .assign, .lt, .gt, .not, .add, .sub, .mul, .div, .rem, .pow,
    .bitAnd, .bitOr, .comma, .semicolon, .dot, .lparen, .rparen, .lbrace, .rbrace]

/-- The spelling of a symbol. -/
def Symbol.chars : Symbol → List Char
  | .eq => ['=', '=']
  | .ne => ['!', '=']
  | .le => ['<', '=']
  | .ge => ['>', '=']
  | .inc => ['+', '+']
  | .dec => ['-', '-']
  | .assign => ['=']
  | .lt => ['<']
  | .gt => ['>']
  | .not => ['!']
  | .add => ['+']
  | .sub => ['-']
  | .mul => ['*']
  | .div => ['/']
  | .rem => ['%']
  | .pow => ['^']
  | .bitAnd => ['&']
  | .bitOr => ['|']
  | .comma => [',']
  | .semicolon => [';']
  | .dot => ['.']
  | .lparen => ['(']
  | .rparen => [')']
  | .lbrace => ['\x7b']
  | .rbrace => ['\x7d']

/-- The spelling of a symbol. -/
def Symbol.text (s : Symbol) : String := String.ofList s.chars

/-- The name of a symbol's class in token listings. -/
def Symbol.className : Symbol → String
  | .eq => "EQ"
  | .ne => "NE"
  | .le => "LE"
  | .ge => "GE"
  | .inc => "INC"
  | .dec => "DEC"
  | .assign => "ASSIGN"
  | .lt => "LT"
  | .gt => "GT"
  | .not => "NOT"
  | .add => "ADD"
  | .sub => "SUB"
  | .mul => "MUL"
  | .div => "DIV"
  | .rem => "REM"
  | .pow => "POW"
  | .bitAnd => "BITAND"
  | .bitOr => "BITOR"
  | .comma => "COMMA"
  | .semicolon => "SEMICOLON"
  | .dot => "DOT"
  | .lparen => "LPAREN"
  | .rparen => "RPAREN"
  | .lbrace => "LBRACE"
  | .rbrace => "RBRACE"

/-- A word of a program. A number keeps its spelling beside its value. -/
inductive Lexeme where
  | identifier (name : String)
  | number (spelling : String) (value : Number)
  | string (text : String)
  | keyword (k : Keyword)
  | symbol (s : Symbol)
  deriving DecidableEq

namespace Lexeme

/-- The word as it stands in the program, a string without its quotes. -/
def literal : Lexeme → String
  | .identifier name => name
  | .number spelling _ => spelling
  | .string text => text
  | .keyword k => k.text
  | .symbol s => s.text

/-- The word as it stands in the program and in messages. -/
def text : Lexeme → String
  | .string text => "\"" ++ text ++ "\""
  | l => l.literal

/-- The name of the word's class in token listings. -/
def className : Lexeme → String
  | .identifier _ => "IDENTIFIER"
  | .number .. => "NUMBER"
  | .string _ => "STRING"
  | .keyword k => k.className
  | .symbol s => s.className

end Lexeme

/-- A word and the location of its first character. -/
structure Token where
  lexeme : Lexeme
  location : Option Location
  deriving DecidableEq

/-- Why a text has no next word. -/
inductive LexFault where
  | unterminatedString
  | unexpectedCharacter (c : Char)
  | numberTooLarge
  deriving DecidableEq, Repr

/-- A character in a message: itself if it is a visible ASCII character, otherwise its code. -/
def visible (c : Char) : String :=
  if '!' ≤ c ∧ c ≤ '~' then c.toString else "0x" ++ hexText 2 c.toNat

/-- The text of a lexical fault. -/
def LexFault.message : LexFault → String
  | .unterminatedString => "unterminated string"
  | .unexpectedCharacter c => "unexpected character " ++ quoted (visible c)
  | .numberTooLarge => "int too large to convert to float"

/-- A lexical fault and where it is. -/
structure LexError where
  fault : LexFault
  location : Option Location
  deriving DecidableEq, Repr

/-- How a text ends: at a location, or at a character that no word begins with. -/
inductive Ending where
  | complete (location : Option Location)
  | broken (error : LexError)
  deriving DecidableEq, Repr

/-- The words of a text, and how the text ends behind them. -/
structure Tokens where
  words : List Token
  ending : Ending
  deriving DecidableEq

end KLang
