import KLang.Proofs.Grammar.Expression

/-!
# Strata and binding

How the strata of the grammar and the precedences of the parser correspond: which stratum is read
above a bound, which stratum the operand in front of a word must belong to, and which word may stand
behind an expression of a stratum.
-/

namespace KLang

/-! ## The order of strata -/

namespace Stratum

/-- The place of a stratum from the loosest to the tightest. -/
def rank : Stratum → Nat
  | compare => 0
  | bitOr => 1
  | bitXor => 2
  | bitAnd => 3
  | sum => 4
  | product => 5
  | power => 6
  | prefixed => 7
  | postfixed => 8
  | primary => 9

instance : LE Stratum := ⟨fun s t => s.rank ≤ t.rank⟩
instance (s t : Stratum) : Decidable (s ≤ t) := inferInstanceAs (Decidable (s.rank ≤ t.rank))

theorem rank_injective {s t : Stratum} (h : s.rank = t.rank) : s = t := by
  cases s <;> cases t <;> first | rfl | cases h

theorem rank_le (s : Stratum) : s.rank ≤ 9 := by
  cases s <;> decide

theorem rank_next {s : Stratum} (h : s.rank < 9) : s.next.rank = s.rank + 1 := by
  cases s <;> first | rfl | exact absurd h (by decide)

end Stratum

theorem Derives.of_le {mode : Mode} {s t : Stratum} {u : List Token} {e : Expr}
    (h : Derives mode s u e) (hle : t ≤ s) : Derives mode t u e := by
  obtain ⟨n, hn⟩ := Nat.exists_eq_add_of_le (show t.rank ≤ s.rank from hle)
  clear hle
  induction n generalizing t with
  | zero => exact Stratum.rank_injective hn ▸ h
  | succ n ih =>
    have hnext := Stratum.rank_next (s := t) (by have := s.rank_le; omega)
    exact .next (ih (by omega))

theorem Derives.of_primary {mode : Mode} {s : Stratum} {u : List Token} {e : Expr}
    (h : Derives mode .primary u e) : Derives mode s u e :=
  h.of_le s.rank_le

theorem Derives.loosest {mode : Mode} {s : Stratum} {u : List Token} {e : Expr}
    (h : Derives mode s u e) : IsExpr mode u e :=
  h.of_le (Nat.zero_le _)

/-! ## Bounds -/

/-- The stratum of what is read above a bound. -/
def Precedence.above : Precedence → Stratum
  | lowest => .compare
  | compare => .bitOr
  | bitOr => .bitXor
  | bitXor => .bitAnd
  | bitAnd => .sum
  | sum => .product
  | product => .power
  | power | prefixed | postfixed => .prefixed

/-- The stratum that the operand in front of a word of this precedence belongs to. -/
def Precedence.before : Precedence → Stratum
  | lowest | compare => .compare
  | bitOr => .bitOr
  | bitXor => .bitXor
  | bitAnd => .bitAnd
  | sum => .sum
  | product => .product
  | power | prefixed => .prefixed
  | postfixed => .postfixed

/-- The stratum of an expression whose last follower has this precedence. -/
def Precedence.formed : Precedence → Stratum
  | power => .power
  | p => p.before

/-- The bound under which a stratum is read. -/
def Stratum.bound : Stratum → Precedence
  | compare => .lowest
  | bitOr => .compare
  | bitXor => .bitOr
  | bitAnd => .bitXor
  | sum => .bitAnd
  | product => .sum
  | power => .product
  | prefixed | postfixed | primary => .prefixed

/-- The tightest precedence of a word behind an expression of a stratum that leaves the expression
as it is. -/
def Stratum.limit : Stratum → Precedence
  | compare => .compare
  | bitOr => .bitOr
  | bitXor => .bitXor
  | bitAnd => .bitAnd
  | sum => .sum
  | product | power => .product
  | prefixed => .prefixed
  | postfixed | primary => .postfixed

theorem Precedence.le_trans {p q r : Precedence} (h : p ≤ q) (h' : q ≤ r) : p ≤ r :=
  Nat.le_trans h h'

theorem Precedence.lt_of_le_of_lt {p q r : Precedence} (h : p ≤ q) (h' : q < r) : p < r :=
  Nat.lt_of_le_of_lt h h'

theorem Precedence.not_lt {p q : Precedence} : ¬ p < q ↔ q ≤ p := Nat.not_lt

theorem Precedence.lowest_le (p : Precedence) : .lowest ≤ p := Nat.zero_le _

theorem Precedence.eq_lowest {p : Precedence} (h : p ≤ .lowest) : p = .lowest := by
  cases p <;> first | rfl | exact absurd h (by decide)

theorem Precedence.lt_postfixed {p : Precedence} (h : p ≤ .prefixed) : p < .postfixed :=
  lt_of_le_of_lt h (by decide)

theorem Precedence.above_le_prefixed (p : Precedence) : p.above ≤ .prefixed := by
  cases p <;> decide

theorem Precedence.before_le_postfixed (p : Precedence) : p.before ≤ .postfixed := by
  cases p <;> decide

theorem Precedence.before_le_prefixed {p : Precedence} (h : p ≤ .prefixed) :
    p.before ≤ .prefixed := by
  cases p <;> first | decide | exact absurd h (by decide)

theorem Precedence.above_le_formed {p q : Precedence} (h : p < q) : p.above ≤ q.formed := by
  cases p <;> cases q <;> first | decide | exact absurd h (by decide)

theorem Stratum.bound_le_bound_next (s : Stratum) : s.bound ≤ s.next.bound := by
  cases s <;> decide

theorem Stratum.limit_le_limit_next (s : Stratum) : s.limit ≤ s.next.limit := by
  cases s <;> decide

/-! ## Operators that associate to the left -/

/-- The precedences of operators that associate to the left. -/
def Precedence.LeftAssociative (p : Precedence) : Prop := .lowest < p ∧ p ≤ .product

instance (p : Precedence) : Decidable p.LeftAssociative :=
  inferInstanceAs (Decidable (.lowest < p ∧ p ≤ .product))

namespace Precedence

variable {p q : Precedence}

theorem LeftAssociative.formed_eq (h : p.LeftAssociative) : p.formed = p.before := by
  cases p <;> first | rfl | exact absurd h (by decide)

theorem LeftAssociative.above_eq (h : p.LeftAssociative) : p.above = p.before.next := by
  cases p <;> first | rfl | exact absurd h (by decide)

theorem LeftAssociative.limit_before (h : p.LeftAssociative) : p.before.limit = p := by
  cases p <;> first | rfl | exact absurd h (by decide)

theorem LeftAssociative.bound_before_lt (h : p.LeftAssociative) : p.before.bound < p := by
  cases p <;> first | decide | exact absurd h (by decide)

theorem LeftAssociative.le_bound_next (h : p.LeftAssociative) : p ≤ p.before.next.bound := by
  cases p <;> first | decide | exact absurd h (by decide)

theorem le_limit_before_next : p ≤ p.before.next.limit := by
  cases p <;> decide

theorem before_le_formed (h : p ≤ q) (hq : q ≤ .product) : p.before ≤ q.formed := by
  cases p <;> cases q <;> first | decide | exact absurd h (by decide) | exact absurd hq (by decide)

end Precedence

namespace BinaryOperator

variable {op : BinaryOperator}

theorem leftAssociative (h : op ≠ .pow) : op.precedence.LeftAssociative := by
  match op with
  | .compare op => cases op <;> decide
  | .bitwise op => cases op <;> decide
  | .add | .sub | .mul | .div | .rem => decide
  | .pow => exact absurd rfl h

theorem stratum_eq_before (h : op ≠ .pow) : op.stratum = op.precedence.before := by
  match op with
  | .compare _ | .add | .sub | .mul | .div | .rem => rfl
  | .bitwise op => cases op <;> rfl
  | .pow => exact absurd rfl h

theorem rightBound_eq (h : op ≠ .pow) : op.rightBound = op.precedence := by
  cases op with
  | pow => exact absurd rfl h
  | _ => rfl

theorem before_le_formed {p : Precedence} (h : p ≤ op.rightBound) :
    p.before ≤ op.precedence.formed := by
  by_cases hop : op = .pow
  · subst hop
    exact Nat.le_trans (Precedence.before_le_formed h (by decide)) (by decide)
  · rw [rightBound_eq hop] at h
    exact Precedence.before_le_formed h (leftAssociative hop).2

end BinaryOperator

end KLang
