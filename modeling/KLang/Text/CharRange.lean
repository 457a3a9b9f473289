/-!
# Ranges of characters

Properties of characters are given by tables of ranges of their codes.
-/

namespace KLang

/-- The characters with a code from `first` to `last`. -/
structure CharRange where
  first : Nat
  last : Nat
  deriving Repr

/-- Whether a character lies in a range. -/
def CharRange.contains (r : CharRange) (c : Char) : Bool := r.first ≤ c.toNat && c.toNat ≤ r.last

/-- Whether a character lies in one of the ranges of a table. -/
def inTable (table : List CharRange) (c : Char) : Bool := table.any (·.contains c)

end KLang
