/-!
# Locations

Where a piece of a program stands: a line of a file. A program that is not read from a file may have
line numbers without a file name, or no locations at all.
-/

namespace KLang

/-- A line of a file, whose name may be unknown. -/
structure Location where
  file : Option String
  line : Int
  deriving DecidableEq, Repr, Inhabited

namespace Location

/-- The location as shown in reports. -/
def text (l : Location) : String :=
  match l.file with
  | none => s!"line {l.line}"
  | some file => s!"{file}, line {l.line}"

/-- The location `n` lines further down. -/
def down (l : Location) (n : Nat) : Location := { l with line := l.line + n }

end Location

/-- A message with the location it refers to in front of it, if it has one. -/
def located (location : Option Location) (message : String) : String :=
  match location with
  | none => message
  | some l => "[" ++ l.text ++ "] " ++ message

end KLang
