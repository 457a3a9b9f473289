import KLang.Proofs.Grammar.Nesting
import KLang.Proofs.Parsing.Expression

/-!
# The mode as a switch

Parsers are told their mode. Here the mode is a switch instead, which every part of the parser sees
and which print lists, parentheses and arguments set and put back. Readings note where they come by
and how the switch stands there.

* `Reading`: computations with a switch, which may fail; `visit`, `precedence`, `switched`.
* `InPrintList`: tokens behind which a print list is being read, outside of inner parentheses.
* `Before`: a place in front of tokens where a mode is the right one, and how it moves on.
* `Agrees`: a reading gives a result, leaves the switch as it was, and makes good visits only.
-/

namespace KLang

/-! ## Readings -/

/-- Where the position of the switch is noted: at the beginning of an expression, a statement, a
block or a condition in parentheses, behind a print statement, and where the precedence of a word is
looked up. -/
inductive Point where
  | expression
  | precedence
  | statement
  | block
  | condition
  | printed
  deriving DecidableEq, Repr

/-- A point, the position of the switch there, and the tokens that were not yet read. -/
structure Visit where
  point : Point
  mode : Mode
  rest : List Token

/-- The position of the switch, and the visits so far. -/
structure Switch where
  mode : Mode
  visits : List Visit

/-- A reading that may look at the switch. -/
abbrev Reading (α : Type) := EStateM ParseError Switch α

namespace Reading

variable {α β : Type}

/-- Notes the position of the switch. -/
def visit (point : Point) (ts : List Token) : Reading Unit :=
  modify fun s => { s with visits := s.visits ++ [⟨point, s.mode, ts⟩] }

/-- How tightly the word at the front of tokens binds, as the switch stands. -/
def precedence (ts : List Token) : Reading Precedence := do
  visit .precedence ts
  return frontPrecedence (← get).mode ts

/-- Reads with the switch in a position and puts it back, also if the reading fails. -/
def switched (mode : Mode) (x : Reading α) : Reading α := do
  let before := (← get).mode
  modify fun s => { s with mode }
  try x
  finally modify fun s => { s with mode := before }

/-- A reading that has nothing to do with the switch. -/
def ofExcept : Except ParseError α → Reading α
  | .ok a => pure a
  | .error e => throw e

end Reading

/-! ## The right mode -/

/-- The tokens end within a print list, and outside of all parentheses in it. -/
def InPrintList (c : List Token) : Prop :=
  ∃ u l l' v, c = u ++ ⟨.keyword .printWord, l⟩ :: ⟨.symbol .lparen, l'⟩ :: v ∧ Balanced v

/-- Behind tokens that do not end in `print`, the mode is for printed items exactly in a print list,
outside of inner parentheses. -/
structure Suits (c : List Token) (mode : Mode) : Prop where
  mode_iff : mode = .items ↔ InPrintList c
  last : ∀ t ∈ c.getLast?, t.lexeme ≠ .keyword .printWord

theorem inPrintList_append {c u : List Token} (hu : Balanced u) :
    InPrintList (c ++ u) ↔ InPrintList c := by
  constructor
  · rintro ⟨x, l, l', v, h, hv⟩
    have hsettled := hu.settled
    obtain ⟨y, rfl, rfl⟩ | ⟨y, rfl, hy⟩ := List.append_eq_append_iff.mp h
    · have hopened := hu.opened y (List.prefix_append _ _)
      simp [Lexeme.nesting, hv.settled] at hsettled
      omega
    · -- the balanced tokens cannot begin at or in front of the `(` of the list
      obtain _ | ⟨_, _ | ⟨_, y⟩⟩ := y <;> cases hy
      · simp [Lexeme.nesting, hv.settled] at hsettled
      · simp [Lexeme.nesting, hv.settled] at hsettled
      · exact ⟨x, l, l', y, rfl, hv.of_append hu⟩
  · rintro ⟨x, l, l', v, rfl, hv⟩
    exact ⟨x, l, l', v ++ u, by simp, hv.append hu⟩

namespace Suits

variable {c u : List Token} {mode : Mode}

theorem nil : Suits [] .plain := by
  refine ⟨⟨nofun, ?_⟩, fun _ ht => by cases ht⟩
  rintro ⟨x, l, l', v, h, -⟩
  cases x <;> cases h

theorem append (hc : Suits c mode) (hu : Closed u) : Suits (c ++ u) mode :=
  ⟨hc.mode_iff.trans (inPrintList_append hu.toBalanced).symm, forall_getLast?_append hc.last hu.last⟩

theorem lparen (hc : Suits c mode) (l : Option Location) :
    Suits (c ++ [⟨.symbol .lparen, l⟩]) .plain := by
  refine ⟨⟨by simp, ?_⟩, fun t ht => ?_⟩
  · rintro ⟨x, l', l'', v, h, hv⟩
    exfalso
    obtain rfl | ⟨v, t, rfl⟩ := List.eq_nil_or_concat v
    · rw [List.append_cons x] at h
      obtain ⟨rfl, -⟩ := List.append_inj' h rfl
      exact hc.last _ List.getLast?_concat rfl
    · -- a list that ends in a `(` is not balanced
      rw [List.concat_eq_append] at h hv
      rw [← List.cons_append, ← List.cons_append, ← List.append_assoc] at h
      obtain ⟨-, ht⟩ := List.append_inj' h rfl
      obtain rfl := (List.cons.inj ht).1
      have hopened := hv.opened v (List.prefix_append _ _)
      have hsettled := hv.settled
      simp only [nesting_append, nesting_cons, nesting_nil, Lexeme.nesting] at hsettled
      omega
  · rw [List.getLast?_concat] at ht
    cases ht
    simp

theorem print (c : List Token) (l l' : Option Location) :
    Suits (c ++ [⟨.keyword .printWord, l⟩, ⟨.symbol .lparen, l'⟩]) .items := by
  refine ⟨⟨fun _ => ⟨c, l, l', [], rfl, .nil⟩, fun _ => rfl⟩, fun t ht => ?_⟩
  rw [List.append_cons, List.getLast?_concat] at ht
  cases ht
  nofun

end Suits

/-! ## Places -/

/-- The parser stands in front of the last tokens `ts` of `whole`, and the mode is right there. -/
def Before (whole ts : List Token) (mode : Mode) : Prop := ∃ c, whole = c ++ ts ∧ Suits c mode

/-- The first tokens of the one list, with which it comes before the other, are closed. -/
def Passes (ts rest : List Token) : Prop := ∃ u, ts = u ++ rest ∧ Closed u

/-- The switch stands right for the tokens that were read, and in plain mode where no print list can
go on. -/
def Visit.Right (whole : List Token) (v : Visit) : Prop :=
  (∃ c, whole = c ++ v.rest ∧ (v.mode = .items ↔ InPrintList c)) ∧
    (v.point = .expression ∨ v.point = .precedence ∨ v.mode = .plain)

theorem Passes.word {w : Lexeme} (l : Option Location) (h : w.nesting = 0)
    (hprint : w ≠ .keyword .printWord) (ts : List Token) : Passes (⟨w, l⟩ :: ts) ts :=
  ⟨[_], rfl, .word l h hprint⟩

namespace Before

variable {whole ts rest : List Token} {mode : Mode}

theorem start (whole : List Token) : Before whole whole .plain := ⟨[], rfl, .nil⟩

theorem behind (h : Before whole ts mode) (hrest : Passes ts rest) : Before whole rest mode := by
  obtain ⟨c, rfl, hc⟩ := h
  obtain ⟨u, rfl, hu⟩ := hrest
  exact ⟨c ++ u, by simp, hc.append hu⟩

theorem word {w : Lexeme} {l : Option Location} (h : Before whole (⟨w, l⟩ :: ts) mode)
    (hw : w.nesting = 0) (hprint : w ≠ .keyword .printWord) : Before whole ts mode :=
  h.behind (.word l hw hprint ts)

theorem lparen {l : Option Location} (h : Before whole (⟨.symbol .lparen, l⟩ :: ts) mode) :
    Before whole ts .plain := by
  obtain ⟨c, rfl, hc⟩ := h
  exact ⟨c ++ [_], by simp, hc.lparen l⟩

theorem print {l l' : Option Location}
    (h : Before whole (⟨.keyword .printWord, l⟩ :: ⟨.symbol .lparen, l'⟩ :: ts) mode) :
    Before whole ts .items := by
  obtain ⟨c, rfl, -⟩ := h
  exact ⟨c ++ [_, _], by simp, .print c l l'⟩

theorem right (h : Before whole ts mode) {point : Point}
    (hpoint : point = .expression ∨ point = .precedence ∨ mode = .plain) :
    Visit.Right whole ⟨point, mode, ts⟩ := by
  obtain ⟨c, hc, hsuits⟩ := h
  exact ⟨⟨c, hc, hsuits.mode_iff⟩, hpoint⟩

end Before

theorem Passes.trans {ts ts' ts'' : List Token} (h : Passes ts ts') (h' : Passes ts' ts'') :
    Passes ts ts'' := by
  obtain ⟨u, rfl, hu⟩ := h
  obtain ⟨v, rfl, hv⟩ := h'
  exact ⟨u ++ v, by simp, hu.append hv⟩

/-! ## Agreement -/

/-- The result in a state of the switch. -/
def resultAt {α : Type} (s : Switch) : Except ParseError α → EStateM.Result ParseError Switch α
  | .ok a => .ok a s
  | .error e => .error e s

/-- With the switch in the position, the reading gives the result, leaves the switch as it was and
adds good visits. -/
def Agrees {α : Type} (good : Visit → Prop) (mode : Mode) (x : Reading α)
    (r : Except ParseError α) : Prop :=
  ∀ visits, ∃ new, (∀ v ∈ new, good v) ∧ x.run ⟨mode, visits⟩ = resultAt ⟨mode, visits ++ new⟩ r

theorem Reading.run_switched {α : Type} (mode : Mode) (x : Reading α) (s : Switch) :
    (switched mode x).run s = match x.run { s with mode } with
      | .ok a s' => .ok a { s' with mode := s.mode }
      | .error e s' => .error e { s' with mode := s.mode } := by
  change EStateM.map Prod.fst (tryFinally' x fun _ => modify fun s' => { s' with mode := s.mode })
    { s with mode } = _
  simp only [EStateM.map, tryFinally', EStateM.run]
  cases x { s with mode } <;> rfl

namespace Agrees

variable {α β : Type} {good : Visit → Prop} {mode mode' : Mode}

theorem pure (a : α) : Agrees good mode (pure a) (.ok a) := fun visits =>
  ⟨[], by simp, by rw [List.append_nil]; rfl⟩

theorem ofExcept (r : Except ParseError α) : Agrees good mode (Reading.ofExcept r) r := fun visits =>
  ⟨[], by simp, by rw [List.append_nil]; cases r <;> rfl⟩

theorem visit {point : Point} {ts : List Token} (h : good ⟨point, mode, ts⟩) :
    Agrees good mode (Reading.visit point ts) (.ok ()) := fun _ => ⟨[_], by simpa using h, rfl⟩

theorem bind {x : Reading α} {f : α → Reading β} {r : Except ParseError α}
    {g : α → Except ParseError β} (hx : Agrees good mode x r)
    (hf : ∀ a, r = .ok a → Agrees good mode (f a) (g a)) :
    Agrees good mode (x >>= f) (r >>= g) := by
  intro visits
  obtain ⟨new, hnew, hrun⟩ := hx visits
  cases r with
  | error e =>
    refine ⟨new, hnew, ?_⟩
    rw [EStateM.run_bind, hrun]
    rfl
  | ok a =>
    obtain ⟨new', hnew', hrun'⟩ := hf a rfl (visits ++ new)
    refine ⟨new ++ new', ?_, ?_⟩
    · exact List.forall_mem_append.mpr ⟨hnew, hnew'⟩
    · rw [EStateM.run_bind, hrun, ← List.append_assoc]
      exact hrun'

theorem after {x : Reading α} {f : α → Reading β} {a : α} {r : Except ParseError β}
    (hx : Agrees good mode x (.ok a)) (hf : Agrees good mode (f a) r) :
    Agrees good mode (x >>= f) r :=
  bind (r := .ok a) (g := fun _ => r) hx fun _ h => by cases h; exact hf

theorem precedence {ts : List Token} (h : good ⟨.precedence, mode, ts⟩) :
    Agrees good mode (Reading.precedence ts) (.ok (frontPrecedence mode ts)) := by
  refine after (visit h) fun visits => ⟨[], by simp, ?_⟩
  rw [List.append_nil]
  rfl

theorem switched {x : Reading α} {r : Except ParseError α} (hx : Agrees good mode' x r) :
    Agrees good mode (Reading.switched mode' x) r := by
  intro visits
  obtain ⟨new, hnew, hrun⟩ := hx visits
  refine ⟨new, hnew, ?_⟩
  rw [Reading.run_switched, hrun]
  cases r <;> rfl

end Agrees

theorem Before.bind {whole ts : List Token} {mode : Mode} {α β : Type} {n : Nat}
    (h : Before whole ts mode) {x : Reading (Parsed α n)} {r : ParseResult α n}
    {f : Parsed α n → Reading β} {g : Parsed α n → Except ParseError β}
    (hx : Agrees (Visit.Right whole) mode x r)
    (hpasses : ∀ {a rest}, outcome r = .ok (a, rest) → Passes ts rest)
    (hf : ∀ p, Before whole p.rest mode → Agrees (Visit.Right whole) mode (f p) (g p)) :
    Agrees (Visit.Right whole) mode (x >>= f) (r >>= g) :=
  hx.bind fun p hp => hf p (h.behind (hpasses (congrArg outcome hp)))

end KLang
