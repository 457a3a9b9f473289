import KLang.Text.CharRange

/-!
# Blanks

* `isBlank`: the six ASCII blanks, which stand between the words of a program.
* `isWideBlank`: the blanks beyond ASCII.
-/

namespace KLang

/-- The six ASCII characters between words. -/
def isBlank (c : Char) : Bool :=
  c == ' ' || c == '\t' || c == '\n' || c == '\r' || c == '\x0b' || c == '\x0c'

/-- The blanks beyond ASCII: a line end, spaces of several widths and separators. -/
def wideBlanks : List CharRange :=
  [⟨0x85, 0x85⟩, ⟨0xa0, 0xa0⟩, ⟨0x1680, 0x1680⟩, ⟨0x2000, 0x200a⟩, ⟨0x2028, 0x2029⟩,
    ⟨0x202f, 0x202f⟩, ⟨0x205f, 0x205f⟩, ⟨0x3000, 0x3000⟩]

/-- Whether a character is a blank beyond ASCII. -/
def isWideBlank (c : Char) : Bool := inTable wideBlanks c

end KLang
