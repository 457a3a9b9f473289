import KLang.Proofs.Lexing.Munch
import KLang.Proofs.Parsing.Program

/-!
# Where the nodes of a program stand

Every node of a program that has been read stands where one of its tokens does, so in a text that
has a location every node has one.

* `Expr.Placed`, `Statement.Placed`: a property of the locations of all nodes, those of the
  functions that are declared included.
* `Derives.placed`, `IsStatements.placed`: the tokens pass it on.
* `Program.located_of_ofText`: all nodes of the program of a text with a location have locations.
-/

namespace KLang

/-! ## A property of all locations -/

/-- All nodes of an expression stand at locations with the property. -/
inductive Expr.Placed (P : Option Location → Prop) : Expr → Prop
  | number {l : Option Location} (x : Number) (hl : P l) : Placed P (.number l x)
  | string {l : Option Location} (text : String) (hl : P l) : Placed P (.string l text)
  | variable {l : Option Location} (name : Name) (hl : P l) : Placed P (.variable l name)
  | unary {l : Option Location} {e : Expr} (op : UnaryOperator) (hl : P l) (h : Placed P e) :
      Placed P (.unary l op e)
  | binary {l : Option Location} {e e' : Expr} (op : BinaryOperator) (hl : P l) (h : Placed P e)
      (h' : Placed P e') : Placed P (.binary l op e e')
  | step {l : Option Location} (op : PostfixOperator) (name : String) (hl : P l) :
      Placed P (.step l op name)
  | call {l : Option Location} {es : List Expr} (name : Name) (hl : P l)
      (h : ∀ e ∈ es, Placed P e) : Placed P (.call l name es)

/-- All nodes of a statement stand at locations with the property. -/
inductive Statement.Placed (P : Option Location → Prop) : Statement → Prop
  | declare {l : Option Location} {e : Expr} (kind : Kind) (name : String) (hl : P l)
      (h : e.Placed P) : Placed P (.declare l kind name e)
  | assign {l l' : Option Location} {e : Expr} (target : Name) (hl : P l) (hl' : P l')
      (h : e.Placed P) : Placed P (.assign l l' target e)
  | print {l : Option Location} {items : List Expr} (hl : P l) (h : ∀ e ∈ items, e.Placed P) :
      Placed P (.print l items)
  | branch {l : Option Location} {arms : List Arm} {otherwise : Option Block} (hl : P l)
      (hconditions : ∀ arm ∈ arms, arm.condition.Placed P)
      (harms : ∀ arm ∈ arms, ∀ t ∈ arm.body.statements, Placed P t)
      (hotherwise : ∀ block ∈ otherwise, ∀ t ∈ block.statements, Placed P t) :
      Placed P (.branch l arms otherwise)
  | loop {l : Option Location} {condition : Expr} {body : Block} (hl : P l)
      (hcondition : condition.Placed P) (hbody : ∀ t ∈ body.statements, Placed P t) :
      Placed P (.loop l condition body)
  | define {l : Option Location} {f : Function} (hl : P l)
      (hbody : ∀ t ∈ f.body.statements, Placed P t) : Placed P (.define l f)
  | returnNothing {l : Option Location} (hl : P l) : Placed P (.returnValue l none)
  | returnValue {l : Option Location} {e : Expr} (hl : P l) (h : e.Placed P) :
      Placed P (.returnValue l (some e))
  | importModule {l : Option Location} (name : String) (hl : P l) :
      Placed P (.importModule l name)
  | evaluate {l : Option Location} {e : Expr} (hl : P l) (h : e.Placed P) :
      Placed P (.evaluate l e)

variable {P : Option Location → Prop}

theorem Expr.Placed.location {e : Expr} (h : e.Placed P) : P e.location := by
  cases h <;> assumption

theorem Statement.Placed.location {t : Statement} (h : t.Placed P) : P t.location := by
  cases h <;> assumption

/-! ## Tokens -/

/-- The tokens stand at locations with the property. -/
def TokensAt (P : Option Location → Prop) (ts : List Token) : Prop := ∀ t ∈ ts, P t.location

@[simp] theorem tokensAt_nil : TokensAt P [] := by simp [TokensAt]

@[simp] theorem tokensAt_cons {t : Token} {ts : List Token} :
    TokensAt P (t :: ts) ↔ P t.location ∧ TokensAt P ts := by
  simp [TokensAt]

@[simp] theorem tokensAt_append {ts ts' : List Token} :
    TokensAt P (ts ++ ts') ↔ TokensAt P ts ∧ TokensAt P ts' := by
  simp [TokensAt, or_imp, forall_and]

theorem Behind.tokensAt {separator : Symbol} {us : List (List Token)} {v : List Token}
    (h : Behind separator us v) (hv : TokensAt P v) : ∀ u ∈ us, TokensAt P u := by
  induction h with
  | nil => simp
  | cons l more ih =>
    simp only [tokensAt_cons, tokensAt_append] at hv
    exact List.forall_mem_cons.mpr ⟨hv.2.1, ih hv.2.2⟩

theorem Separated.tokensAt {separator : Symbol} {us : List (List Token)} {v : List Token}
    (h : Separated separator us v) (hv : TokensAt P v) : ∀ u ∈ us, TokensAt P u := by
  cases h with
  | nil => simp
  | cons more =>
    rw [tokensAt_append] at hv
    exact List.forall_mem_cons.mpr ⟨hv.1, more.tokensAt hv.2⟩

/-! ## Expressions -/

/-- An expression stands where its tokens do. -/
theorem Derives.placed {mode : Mode} {s : Stratum} {u : List Token} {e : Expr}
    (h : Derives mode s u e) (hu : TokensAt P u) : e.Placed P := by
  induction h with
  | next _ ih => exact ih hu
  | binary l _ _ _ _ ih ih' =>
    simp only [tokensAt_append, tokensAt_cons] at hu
    exact .binary _ hu.2.1 (ih hu.1) (ih' hu.2.2)
  | power l _ _ ih ih' =>
    simp only [tokensAt_append, tokensAt_cons] at hu
    exact .binary _ hu.2.1 (ih hu.1) (ih' hu.2.2)
  | unary l op _ ih =>
    rw [tokensAt_cons] at hu
    exact .unary op hu.1 (ih hu.2)
  | call l r _ separated _ _ ih =>
    simp only [tokensAt_append, tokensAt_cons] at hu
    have hpieces := separated.tokensAt hu.2.2.1
    refine .call _ hu.2.1 fun e he => ?_
    obtain ⟨a, ha, rfl⟩ := List.mem_map.mp he
    exact ih a ha (hpieces a.1 (List.mem_map_of_mem ha))
  | member l r name _ _ =>
    simp only [tokensAt_append, tokensAt_cons] at hu
    exact .variable _ hu.2.1
  | step l op _ _ =>
    simp only [tokensAt_append, tokensAt_cons] at hu
    exact .step op _ hu.2.1
  | number l spelling value => exact .number value (tokensAt_cons.mp hu).1
  | string l text => exact .string text (tokensAt_cons.mp hu).1
  | name l name => exact .variable _ (tokensAt_cons.mp hu).1
  | grouped l r _ ih =>
    simp only [tokensAt_append, tokensAt_cons] at hu
    exact ih hu.2.1

/-! ## Statements -/

theorem IsCondition.placed {u : List Token} {e : Expr} (h : IsCondition u e) (hu : TokensAt P u) :
    e.Placed P := by
  cases h with
  | mk l r h =>
    simp only [tokensAt_append, tokensAt_cons] at hu
    exact h.placed hu.2.1

mutual

/-- A statement stands where its tokens do. -/
theorem IsStatement.placed {u : List Token} {t : Statement} (h : IsStatement u t)
    (hu : TokensAt P u) : t.Placed P := by
  match h with
  | .declare l l₁ l₂ r kind name h =>
    simp only [tokensAt_append, tokensAt_cons] at hu
    exact .declare kind name hu.1 (h.placed hu.2.2.2.1)
  | .print l l₁ r r₁ ⟨pieces, separated, hpieces, heq⟩ =>
    simp only [tokensAt_append, tokensAt_cons] at hu
    have htokens := separated.tokensAt hu.2.2.1
    refine .print hu.1 fun e he => ?_
    rw [heq] at he
    obtain ⟨p, hp, rfl⟩ := List.mem_map.mp he
    exact (hpieces p hp).placed (htokens p.1 (List.mem_map_of_mem hp))
  | .branch l harm harms hotherwise =>
    simp only [tokensAt_append, tokensAt_cons] at hu
    have hfirst := harm.placed hu.2.1
    have hmore := harms.placed hu.2.2.1
    exact .branch hu.1 (List.forall_mem_cons.mpr ⟨hfirst.1, fun arm h => (hmore arm h).1⟩)
      (List.forall_mem_cons.mpr ⟨hfirst.2, fun arm h => (hmore arm h).2⟩)
      (hotherwise.placed hu.2.2.2)
  | .loop l hcondition hbody =>
    simp only [tokensAt_append, tokensAt_cons] at hu
    exact .loop hu.1 (hcondition.placed hu.2.1) (hbody.placed hu.2.2)
  | .define l hheader hbody =>
    simp only [tokensAt_append, tokensAt_cons] at hu
    exact .define hu.1 (hbody.placed hu.2.2)
  | .returnNothing l r => exact .returnNothing (tokensAt_cons.mp hu).1
  | .returnValue l r h =>
    simp only [tokensAt_append, tokensAt_cons] at hu
    exact .returnValue hu.1 (h.placed hu.2.1)
  | .importModule l l₁ r name => exact .importModule name (tokensAt_cons.mp hu).1
  | .evaluate l r name h =>
    simp only [tokensAt_append, tokensAt_cons] at hu
    exact .evaluate hu.1 (h.placed (tokensAt_cons.mpr ⟨hu.1, hu.2.1⟩))
  | .assign l l₁ r name htarget hvalue =>
    simp only [tokensAt_append, tokensAt_cons] at hu
    have htarget := htarget.placed (tokensAt_cons.mpr ⟨hu.1, hu.2.1⟩)
    exact .assign _ hu.1 htarget.location (hvalue.placed hu.2.2.2.1)

theorem IsArm.placed {l : Option Location} {u : List Token} {arm : Arm} (h : IsArm l u arm)
    (hu : TokensAt P u) : arm.condition.Placed P ∧ ∀ t ∈ arm.body.statements, t.Placed P := by
  match h with
  | .mk l hcondition hbody =>
    rw [tokensAt_append] at hu
    exact ⟨hcondition.placed hu.1, hbody.placed hu.2⟩

theorem IsArms.placed {u : List Token} {arms : List Arm} (h : IsArms u arms) (hu : TokensAt P u) :
    ∀ arm ∈ arms, arm.condition.Placed P ∧ ∀ t ∈ arm.body.statements, t.Placed P := by
  match h with
  | .nil => simp
  | .cons l harm harms =>
    simp only [tokensAt_append, tokensAt_cons] at hu
    exact List.forall_mem_cons.mpr ⟨harm.placed hu.2.1, harms.placed hu.2.2⟩

theorem IsElse.placed {u : List Token} {otherwise : Option Block} (h : IsElse u otherwise)
    (hu : TokensAt P u) : ∀ block ∈ otherwise, ∀ t ∈ block.statements, t.Placed P := by
  match h with
  | .absent => simp
  | .given l h =>
    intro block hblock
    obtain rfl := Option.mem_some_iff.mp hblock
    exact h.placed (tokensAt_cons.mp hu).2

theorem IsBlock.placed {u : List Token} {b : Block} (h : IsBlock u b) (hu : TokensAt P u) :
    ∀ t ∈ b.statements, t.Placed P := by
  match h with
  | .mk l r h =>
    simp only [tokensAt_append, tokensAt_cons] at hu
    exact h.placed hu.2.1

theorem IsStatements.placed {u : List Token} {ss : List Statement} (h : IsStatements u ss)
    (hu : TokensAt P u) : ∀ t ∈ ss, t.Placed P := by
  match h with
  | .nil => simp
  | .cons h more =>
    rw [tokensAt_append] at hu
    exact List.forall_mem_cons.mpr ⟨h.placed hu.1, more.placed hu.2⟩

end

/-! ## Texts -/

theorem Cursor.isSome_of_next {p p' : Cursor} {t : Token} (h : p.next = .ok (some t, p')) :
    t.location.isSome = p.location.isSome ∧ p'.location.isSome = p.location.isSome := by
  rcases hskip : skipTrivia false 0 p.rest with ⟨n, rest⟩
  cases rest with
  | nil =>
    rw [next_of_nil hskip] at h
    cases h
  | cons c cs =>
    rw [next_of_cons hskip] at h
    split at h
    · cases h
    · cases h
      exact ⟨Option.isSome_map, Option.isSome_map⟩

theorem Cursor.Reads.isSome_location {p : Cursor} {ts : List Token} {ending : Ending}
    (h : p.Reads ts ending) : TokensAt (fun l => l.isSome = p.location.isSome) ts := by
  induction h with
  | finish | stop => exact tokensAt_nil
  | token h _ ih =>
    obtain ⟨htoken, hplace⟩ := isSome_of_next h
    rw [hplace] at ih
    exact tokensAt_cons.mpr ⟨htoken, ih⟩

/-- All nodes of the program of a text that has a location have locations. -/
theorem Program.located_of_ofText {source : String} {l : Location} {program : Program}
    (h : Program.ofText source (some l) = .ok program) :
    ∀ t ∈ program.statements, t.Placed (·.isSome) := by
  obtain ⟨eof, -, hstatements, -⟩ := Program.ofText_eq_ok.mp h
  have htokens := (Cursor.reads_ofChars ⟨some l, source.toList⟩).isSome_location
  exact hstatements.placed htokens

end KLang
