import KLang.Token.Lexer

/-!
# Token listings

A line for each token of a program, with its line number, its class and its text.
-/

namespace KLang

/-- One row of a token listing; a missing location is line `0`. -/
def listingRow (location : Option Location) (className text : String) : String :=
  let line := toString ((location.map (·.line)).getD 0)
  String.ofList (line.toList.leftpad 4 ' ') ++ " " ++
    String.ofList (className.toList.rightpad 10 ' ') ++ " " ++ text ++ "\n"

/-- The row of a token. -/
def Token.listing (t : Token) : String :=
  listingRow t.location t.lexeme.className t.lexeme.text

/-- The word for the end of a text in messages and listings. -/
def endOfFile : String := "end-of-file"

/-- The row of the end of a text; a broken text has none. -/
def Ending.listing : Ending → String
  | .complete location => listingRow location "EOF" endOfFile
  | .broken _ => ""

/-- The listing of the tokens of a text. -/
def Tokens.listing (ts : Tokens) : String :=
  String.join (ts.words.map Token.listing) ++ ts.ending.listing

end KLang
