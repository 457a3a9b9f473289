/-!
# Tables

A table binds names to values in the order in which the names were first inserted; binding a name
again keeps its place.
-/

namespace KLang

/-- Bindings in the order of their first insertion. -/
structure Table (α : Type) where
  entries : List (String × α)
  deriving Repr

namespace Table

variable {α : Type}

instance : EmptyCollection (Table α) := ⟨⟨[]⟩⟩
instance : Inhabited (Table α) := ⟨∅⟩

/-- The value bound to a name. -/
def get? (t : Table α) (name : String) : Option α := t.entries.lookup name

/-- Whether a name is bound. -/
def contains (t : Table α) (name : String) : Bool := (t.get? name).isSome

/-- The bound names in order. -/
def names (t : Table α) : List String := t.entries.map Prod.fst

/-- The bound values in order. -/
def values (t : Table α) : List α := t.entries.map Prod.snd

/-- The entries with a name bound to a value, at its old place or behind all others. -/
def insertEntry (name : String) (value : α) : List (String × α) → List (String × α)
  | [] => [(name, value)]
  | (n, v) :: rest =>
    if n = name then (name, value) :: rest else (n, v) :: insertEntry name value rest

/-- The table with a name bound to a value. -/
def insert (t : Table α) (name : String) (value : α) : Table α :=
  ⟨insertEntry name value t.entries⟩

/-- The table with these bindings, made one after the other. -/
def ofList (l : List (String × α)) : Table α := l.foldl (fun t (n, v) => t.insert n v) ∅

end Table

end KLang
