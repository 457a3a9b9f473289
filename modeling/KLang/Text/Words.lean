/-!
# Words of a command line

Splitting a command into words at blanks. Quotes keep blanks together, and a backslash takes the
next character as it is; between double quotes it does so only before a double quote or a backslash.
-/

namespace KLang

/-- Why a command cannot be split into words. -/
inductive WordFault where
  | openQuote
  | openEscape
  deriving DecidableEq, Repr

/-- The text of a fault in a command. -/
def WordFault.message : WordFault → String
  | .openQuote => "No closing quotation"
  | .openEscape => "No escaped character"

namespace Words

/-- What the next character of a command belongs to. -/
inductive Place where
  | gap
  | word
  | quote (q : Char)
  | escape (inQuotes : Bool)
  deriving DecidableEq, Repr

/-- Whether a character separates words. -/
def isGap (c : Char) : Bool := c == ' ' || c == '\t' || c == '\r' || c == '\n'

/-- Whether a character begins quoted text. -/
def isQuote (c : Char) : Bool := c == '"' || c == '\''

/-- The words of the rest of a command, `current` being the word so far in reverse. -/
def splitFrom : Place → List Char → List Char → Except WordFault (List String)
  | .gap, _, [] => .ok []
  | .word, current, [] => .ok [String.ofList current.reverse]
  | .quote _, _, [] => .error .openQuote
  | .escape _, _, [] => .error .openEscape
  | .gap, _, c :: cs =>
    if isGap c then splitFrom .gap [] cs
    else if c == '\\' then splitFrom (.escape false) [] cs
    else if isQuote c then splitFrom (.quote c) [] cs
    else splitFrom .word [c] cs
  | .word, current, c :: cs =>
    if isGap c then (String.ofList current.reverse :: ·) <$> splitFrom .gap [] cs
    else if c == '\\' then splitFrom (.escape false) current cs
    else if isQuote c then splitFrom (.quote c) current cs
    else splitFrom .word (c :: current) cs
  | .quote q, current, c :: cs =>
    if c == q then splitFrom .word current cs
    else if c == '\\' && q == '"' then splitFrom (.escape true) current cs
    else splitFrom (.quote q) (c :: current) cs
  | .escape inQuotes, current, c :: cs =>
    if inQuotes then
      splitFrom (.quote '"') (if c == '"' || c == '\\' then c :: current else c :: '\\' :: current)
        cs
    else splitFrom .word (c :: current) cs

/-- The words of a command. -/
def split (command : String) : Except WordFault (List String) :=
  splitFrom .gap [] command.toList

end Words

end KLang
