import KLang.Proofs.Lexing.Munch
import KLang.Proofs.Parsing.Outcome

/-!
# Tokens on demand

Parsers are given all tokens at once. Here they are pulled out of the text instead: one token is known
at a time, and the next one is asked for when that one has been read. A parser of this sort may fail,
or have its calls nested too deeply to end; it keeps the answers that it was given and notes the
rounds of its loops.

* `Puller`, `Pulling`: the state of such a parser, and computations with it.
* `Pulling.ask`, `Pulling.expect`: asking for a token and reading one.
* `Pulling.round`, `Pulling.separated`: what the loops have in common.
* `InFrontOf`: the state is the one in front of the given tokens of a text.
* `Mirrors`: a pulling computation ends, and does what a result of a parser says.
-/

namespace KLang

/-! ## Pulling -/

/-- Why there is no program. -/
inductive Halt where
  | lexical (error : LexError)
  | parse (fault : ParseFault) (location : Option Location)
  deriving DecidableEq

/-- The loops of the parser: over the statements of a program and of a block, over arguments and
printed items, which both stand up to a `)`, over parameters, over arms, and over the followers of an
operand. -/
inductive Loop where
  | program
  | block
  | items
  | parameters
  | arms
  | followers
  deriving DecidableEq, Repr

/-- A round of a loop: the tokens that remained in front of it and behind it. -/
structure Round where
  loop : Loop
  before : List Token
  after : List Token

/-- The state of a parser that asks for its tokens: the place in the text, the token that is known,
unless it is the end of the text, the answers to what was asked so far, and the rounds so far. -/
structure Puller where
  cursor : Cursor
  current : Option Token
  answers : List (Except LexError (Option Token))
  rounds : List Round

/-- The tokens that were not yet read, of which the first one is known. -/
def Puller.remaining (s : Puller) : List Token :=
  match s.current with
  | none => []
  | some t => t :: (Tokens.ofChars s.cursor.location s.cursor.rest).words

/-- A computation that asks for tokens; it has no result where its calls are nested too deeply. -/
abbrev Pulling (α : Type) := ExceptT Halt (StateT Puller Option) α

namespace Pulling

variable {α β : Type}

/-- Calls and rounds that are nested too deeply. -/
def tooDeep : Pulling α := fun _ => none

/-- What the computation does in a state. -/
def runFrom (x : Pulling α) (s : Puller) : Option (Except Halt α × Puller) := (ExceptT.run x).run s

/-- Asks for the next token, which is known from now on. -/
def ask : Pulling Unit := do
  let s ← get
  match s.cursor.next with
  | .error e =>
    set ({ s with answers := s.answers ++ [.error e] } : Puller)
    throw (.lexical e)
  | .ok (current, cursor) =>
    set ({ s with cursor, current, answers := s.answers ++ [.ok current] } : Puller)

theorem runFrom_ask (s : Puller) : ask.runFrom s = match s.cursor.next with
    | .error e => some (.error (.lexical e), { s with answers := s.answers ++ [.error e] })
    | .ok (current, cursor) =>
      some (.ok (), { s with cursor, current, answers := s.answers ++ [.ok current] }) := by
  simp only [ask, runFrom, ExceptT.run_bind, StateT.run_bind]
  change StateT.run _ s = _
  rcases s.cursor.next with e | ⟨current, cursor⟩ <;> rfl

/-- The word of the token that is known; there is none at the end of the text. -/
def word : Pulling (Option Lexeme) := return (← get).current.map (·.lexeme)

/-- The location of the token that is known, or of the end of the text. -/
def here : Pulling (Option Location) := do
  let s ← get
  return match s.current with
    | some t => t.location
    | none => s.cursor.location

/-- Fails with a fault about the token that is known. -/
def fail (fault : Option Lexeme → ParseFault) : Pulling α := do
  throw (.parse (fault (← word)) (← here))

/-- Reads a symbol and gives its location. -/
def expect (s : Symbol) : Pulling (Option Location) := do
  let location ← here
  if (← word) = some (.symbol s) then
    ask
    return location
  else fail (.expectedSymbol s)

/-- Reads an identifier. -/
def expectName : Pulling String := do
  match ← word with
  | some (.identifier name) =>
    ask
    return name
  | _ => fail .expectedIdentifier

/-- Reads a kind. -/
def expectKind : Pulling Kind := do
  match ← word with
  | some (.keyword (.kind k)) =>
    ask
    return k
  | _ => fail .expectedKind

/-- The tokens that remain in front of a round. -/
def remaining : Pulling (List Token) := return (← get).remaining

/-- Notes a round of a loop. -/
def note (loop : Loop) (before : List Token) : Pulling Unit :=
  modify fun s => { s with rounds := s.rounds ++ [⟨loop, before, s.remaining⟩] }

/-- A round of a loop, which is noted unless it fails. -/
def round (loop : Loop) (x : Pulling α) : Pulling α := do
  let before ← remaining
  let a ← x
  note loop before
  return a

/-- A thing of a list, behind a separator that the first one does not have. -/
def separated (separator : Symbol) (first : Bool) (x : Pulling α) : Pulling α := do
  if first then x
  else
    let _ ← expect separator
    x

end Pulling

/-! ## Answers -/

/-- The answer at the end of the words. -/
def Ending.answer : Ending → Except LexError (Option Token)
  | .complete _ => .ok none
  | .broken e => .error e

/-- The answers that a text has: its words, and how it ends. -/
def Tokens.answers (ts : Tokens) : List (Except LexError (Option Token)) :=
  ts.words.map (fun t => .ok (some t)) ++ [ts.ending.answer]

/-- The location of the end of a text, or of the place where it is broken. -/
def Tokens.last (ts : Tokens) : Option Location :=
  match ts.ending with
  | .complete eof => eof
  | .broken e => e.location

/-- Some tokens were read, and nothing else. -/
def Round.Shortens (r : Round) : Prop := r.after <:+ r.before ∧ r.after.length < r.before.length

variable {whole : Tokens} {ts rest : List Token} {s : Puller}

/-- The answers so far are the first ones that the text has, and every round has read tokens. -/
structure Asked (whole : Tokens) (s : Puller) : Prop where
  ne_nil : s.answers ≠ []
  isPrefix : s.answers <+: whole.answers
  rounds : ∀ r ∈ s.rounds, r.Shortens

/-- Of the tokens, the first one is known and the others are read from the cursor on; if there are none,
the cursor is at the end. -/
def Cursor.ReadsBehind (p : Cursor) : List Token → Ending → Prop
  | [], ending => ending = .complete p.location
  | _ :: rest, ending => p.Reads rest ending

/-- The parser stands in front of the last tokens `ts` of a text, the first of which is known. -/
structure InFrontOf (whole : Tokens) (ts : List Token) (s : Puller) : Prop where
  current : s.current = ts.head?
  reads : s.cursor.ReadsBehind ts whole.ending
  answers : ∃ c, whole.words = c ++ ts ∧ s.answers = c.map (fun t => .ok (some t)) ++ [.ok ts.head?]
  rounds : ∀ r ∈ s.rounds, r.Shortens

namespace InFrontOf

theorem word (h : InFrontOf whole ts s) : s.current.map (·.lexeme) = front ts := by
  rw [h.current, front]

theorem here (h : InFrontOf whole ts s) : (match s.current with
    | some t => t.location
    | none => s.cursor.location) = frontLocation whole.last ts := by
  rw [h.current]
  cases ts with
  | nil =>
    have hending : whole.ending = .complete s.cursor.location := h.reads
    rw [frontLocation, Tokens.last, hending]
    rfl
  | cons t ts => rfl

theorem remaining (h : InFrontOf whole ts s) : s.remaining = ts := by
  rw [Puller.remaining, h.current]
  cases ts with
  | nil => rfl
  | cons t ts =>
    have hreads : s.cursor.Reads ts whole.ending := h.reads
    rw [(hreads.unique (Cursor.reads_ofChars s.cursor)).1]
    rfl

theorem complete (h : InFrontOf whole [] s) : ∃ eof, whole.ending = .complete eof := ⟨_, h.reads⟩

theorem asked (h : InFrontOf whole ts s) : Asked whole s := by
  obtain ⟨c, hwords, hanswers⟩ := h.answers
  refine ⟨by simp [hanswers], ?_, h.rounds⟩
  rw [hanswers, Tokens.answers, hwords]
  cases ts with
  | nil =>
    have hending : whole.ending = .complete s.cursor.location := h.reads
    rw [hending, List.append_nil]
    exact List.prefix_refl _
  | cons t ts => exact ⟨ts.map (fun t => .ok (some t)) ++ [whole.ending.answer], by simp⟩

theorem answers_eq (h : InFrontOf whole [] s) : s.answers = whole.answers := by
  obtain ⟨c, hwords, hanswers⟩ := h.answers
  have hending : whole.ending = .complete s.cursor.location := h.reads
  rw [hanswers, Tokens.answers, hwords, hending, List.append_nil]
  rfl

end InFrontOf

/-! ## Results -/

/-- The tokens that were not yet read when there was a result. -/
def restOf {α : Type} : Except ParseError (α × List Token) → List Token
  | .ok (_, rest) => rest
  | .error p => p.rest

/-- What a pulling computation has done is what the result of a parser says. Where the text is broken,
the parser cannot know the end of the words, since it would have to ask for it. -/
inductive Settles (whole : Tokens) {α : Type} :
    Except ParseError (α × List Token) → Option (Except Halt α × Puller) → Prop
  | ok {a : α} {rest : List Token} {s : Puller} (h : InFrontOf whole rest s) :
      Settles whole (.ok (a, rest)) (some (.ok a, s))
  | error {p : ParseError} {s : Puller} (h : p.rest = [] → ∃ eof, whole.ending = .complete eof)
      (asked : Asked whole s) :
      Settles whole (.error p) (some (.error (.parse p.fault p.location), s))
  | broken {r : Except ParseError (α × List Token)} {e : LexError} {s : Puller}
      (h : whole.ending = .broken e) (hrest : restOf r = []) (asked : Asked whole s) :
      Settles whole r (some (.error (.lexical e), s))

/-- In front of the tokens, the computation ends and does what the result says, and what remains then
are the last ones of the tokens. -/
structure Mirrors (whole : Tokens) (ts : List Token) {α : Type} (x : Pulling α)
    (r : Except ParseError (α × List Token)) : Prop where
  suffix : restOf r <:+ ts
  settles : ∀ s, InFrontOf whole ts s → Settles whole r (x.runFrom s)

theorem Settles.bind {α β : Type} {x : Pulling α} {f : α → Pulling β}
    {r : Except ParseError (α × List Token)}
    {g : α × List Token → Except ParseError (β × List Token)} (hx : Settles whole r (x.runFrom s))
    (hf : ∀ a rest, r = .ok (a, rest) → Mirrors whole rest (f a) (g (a, rest))) :
    Settles whole (r >>= g) ((x >>= f).runFrom s) := by
  have hrun : (x >>= f).runFrom s = x.runFrom s >>= fun
      | (.ok a, s) => (f a).runFrom s
      | (.error e, s) => some (.error e, s) := by
    change (x.runFrom s >>= fun p => ExceptT.bindCont f p.1 p.2) = _
    congr 1
    funext ⟨a, s⟩
    cases a <;> rfl
  rw [hrun]
  generalize x.runFrom s = y at hx
  cases hx with
  | ok h => exact (hf _ _ rfl).settles _ h
  | error h asked => exact .error h asked
  | broken h hrest asked =>
    refine .broken h ?_ asked
    cases r with
    | error p => exact hrest
    | ok p =>
      -- behind the last word, nothing more is read
      obtain ⟨a, rest⟩ := p
      obtain rfl : rest = [] := hrest
      exact List.suffix_nil.mp (hf a [] rfl).suffix

theorem settles_ask {c : List Token} (hwords : whole.words = c ++ ts)
    (hanswers : s.answers = c.map (fun t => .ok (some t))) (hreads : s.cursor.Reads ts whole.ending)
    (hrounds : ∀ r ∈ s.rounds, r.Shortens) :
    Settles whole (.ok ((), ts)) (Pulling.ask.runFrom s) := by
  rw [Pulling.runFrom_ask]
  generalize s.cursor = p at hreads
  generalize hending : whole.ending = ending at hreads
  cases hreads with
  | finish h =>
    rw [h]
    exact .ok ⟨rfl, hending, ⟨c, hwords, by rw [hanswers]; rfl⟩, hrounds⟩
  | stop h =>
    rw [h]
    refine .broken hending rfl ⟨by simp, ?_, hrounds⟩
    rw [hanswers, Tokens.answers, hwords, hending, List.append_nil]
    exact List.prefix_refl _
  | token h more =>
    rw [h]
    exact .ok ⟨rfl, hending ▸ more, ⟨c, hwords, by rw [hanswers]; rfl⟩, hrounds⟩

namespace Mirrors

variable {α β : Type}

theorem pure (a : α) : Mirrors whole ts (pure a) (.ok (a, ts)) :=
  ⟨List.suffix_refl ts, fun _ h => .ok h⟩

theorem bind {x : Pulling α} {f : α → Pulling β} {r : Except ParseError (α × List Token)}
    {g : α × List Token → Except ParseError (β × List Token)} (hx : Mirrors whole ts x r)
    (hf : ∀ a rest, r = .ok (a, rest) → Mirrors whole rest (f a) (g (a, rest))) :
    Mirrors whole ts (x >>= f) (r >>= g) := by
  refine ⟨?_, fun s hs => (hx.settles s hs).bind hf⟩
  cases r with
  | error p => exact hx.suffix
  | ok p => exact (hf p.1 p.2 rfl).suffix.trans hx.suffix

theorem look {x : Pulling α} {f : α → Pulling β} {a : α} {r : Except ParseError (β × List Token)}
    (hx : ∀ s, InFrontOf whole ts s → x.runFrom s = some (.ok a, s)) (hf : Mirrors whole ts (f a) r) :
    Mirrors whole ts (x >>= f) r := by
  have hlook : Mirrors whole ts x (.ok (a, ts)) :=
    ⟨List.suffix_refl ts, fun s h => hx s h ▸ .ok h⟩
  exact bind (g := fun _ => r) hlook fun _ _ h => by cases h; exact hf

theorem word {f : Option Lexeme → Pulling β} {r : Except ParseError (β × List Token)}
    (hf : Mirrors whole ts (f (front ts)) r) : Mirrors whole ts (Pulling.word >>= f) r :=
  look (fun s h => by rw [← h.word]; rfl) hf

theorem here {f : Option Location → Pulling β} {r : Except ParseError (β × List Token)}
    (hf : Mirrors whole ts (f (frontLocation whole.last ts)) r) :
    Mirrors whole ts (Pulling.here >>= f) r :=
  look (fun s h => by rw [← h.here]; rfl) hf

theorem throw (fault : ParseFault) (l : Option Location) :
    Mirrors whole ts (throw (.parse fault l) : Pulling α) (.error ⟨fault, l, ts⟩) :=
  ⟨List.suffix_refl ts, fun s h => .error (fun hnil => by subst hnil; exact h.complete) h.asked⟩

theorem fail (fault : Option Lexeme → ParseFault) :
    Mirrors whole ts (Pulling.fail fault : Pulling α) (failFront whole.last fault ts) :=
  word (here (throw _ _))

theorem ask {t : Token} : Mirrors whole (t :: ts) Pulling.ask (.ok ((), ts)) := by
  refine ⟨List.suffix_cons t ts, fun s hs => ?_⟩
  obtain ⟨-, hreads, ⟨c, hwords, hanswers⟩, hrounds⟩ := hs
  rw [List.append_cons] at hwords
  exact settles_ask hwords (by simp [hanswers]) hreads hrounds

theorem next {t : Token} {f : Unit → Pulling β} {r : Except ParseError (β × List Token)}
    (hf : Mirrors whole ts (f ()) r) : Mirrors whole (t :: ts) (Pulling.ask >>= f) r :=
  bind (g := fun _ => r) ask fun _ _ h => by cases h; exact hf

theorem expect (s : Symbol) :
    Mirrors whole ts (Pulling.expect s) (outcome (KLang.expect whole.last s ts)) := by
  refine here (word ?_)
  by_cases h : front ts = some (.symbol s)
  · rw [if_pos h]
    match ts with
    | ⟨w, l⟩ :: ts =>
      obtain rfl := Option.some.inj h
      rw [KLang.expect, if_pos rfl]
      exact next (pure l)
  · rw [if_neg h]
    have hfail : outcome (KLang.expect whole.last s ts) =
        failFront whole.last (.expectedSymbol s) ts := by
      unfold KLang.expect
      split
      · rw [if_neg fun hs => h (by rw [hs]; rfl)]
        rfl
      · rfl
    rw [hfail]
    exact fail _

theorem closed {x : Pulling α} {r : Except ParseError (α × List Token)} (s : Symbol) (f : α → β)
    (hx : Mirrors whole ts x r) :
    Mirrors whole ts (do
      let a ← x
      let _ ← Pulling.expect s
      return f a) (do
      let (a, rest) ← r
      let (_, rest) ← outcome (KLang.expect whole.last s rest)
      return (f a, rest)) :=
  hx.bind fun a _ _ => (expect s).bind fun _ _ _ => pure (f a)

theorem expectName :
    Mirrors whole ts Pulling.expectName (outcome (KLang.expectName whole.last ts)) := by
  refine word ?_
  match ts with
  | [] => exact fail _
  | ⟨w, l⟩ :: ts =>
    cases w with
    | identifier name => exact next (pure name)
    | number | string | keyword | symbol => exact fail _

theorem expectKind :
    Mirrors whole ts Pulling.expectKind (outcome (KLang.expectKind whole.last ts)) := by
  refine word ?_
  match ts with
  | [] => exact fail _
  | ⟨w, l⟩ :: ts =>
    cases w with
    | keyword k => cases k <;> first | exact next (pure _) | exact fail _
    | number | string | identifier | symbol => exact fail _

theorem round {x : Pulling α} {r : Except ParseError (α × List Token)} (loop : Loop)
    (hx : Mirrors whole ts x r) (hr : ∀ a rest, r = .ok (a, rest) → rest.length < ts.length) :
    Mirrors whole ts (Pulling.round loop x) r := by
  have hremaining : ∀ s, InFrontOf whole ts s → Pulling.remaining.runFrom s = some (.ok ts, s) :=
    fun s h => by rw [← h.remaining]; rfl
  rw [← bind_pure r]
  refine look hremaining (bind hx fun a rest h => ?_)
  have hsuffix : rest <:+ ts := by
    have := hx.suffix
    rwa [h] at this
  have hnote : Mirrors whole rest (Pulling.note loop ts) (.ok ((), rest)) := by
    refine ⟨List.suffix_refl _, fun s hs => ?_⟩
    refine .ok (s := { s with rounds := s.rounds ++ [⟨loop, ts, s.remaining⟩] }) ?_
    refine ⟨hs.current, hs.reads, hs.answers, fun round hround => ?_⟩
    rcases List.mem_append.mp hround with hround | hround
    · exact hs.rounds round hround
    · obtain rfl := List.mem_singleton.mp hround
      rw [hs.remaining]
      exact ⟨hsuffix, hr a rest h⟩
  exact bind (g := fun _ => .ok (a, rest)) hnote fun _ _ h => by cases h; exact pure a

theorem separated {x : Pulling α} {f : α → Pulling β} {separator : Symbol} {loop : Loop}
    {r : (ts : List Token) → ParseResult α ts.length}
    {g : α × List Token → Except ParseError (β × List Token)}
    (hx : ∀ rest, rest.length < ts.length → Mirrors whole rest x (outcome (r rest)))
    (hf : ∀ a rest, rest.length < ts.length → Mirrors whole rest (f a) (g (a, rest))) :
    Mirrors whole ts (Pulling.round loop (Pulling.separated separator false x) >>= f) (do
      let (_, rest) ← outcome (KLang.expect whole.last separator ts)
      outcome (r rest) >>= g) := by
  have hread : Mirrors whole ts (Pulling.separated separator false x) (do
      let (_, rest) ← outcome (KLang.expect whole.last separator ts)
      outcome (r rest)) :=
    bind (expect separator) fun _ rest h => hx rest (length_lt_of_outcome h)
  have hlt (a : α) (rest : List Token) (h : (do
      let (_, rest) ← outcome (KLang.expect whole.last separator ts)
      outcome (r rest)) = .ok (a, rest)) : rest.length < ts.length := by
    obtain ⟨l, rest', hexpect, h⟩ := bind_eq_ok.mp h
    exact length_lt_trans (length_lt_of_outcome hexpect) (length_lt_of_outcome h)
  have hround := bind (round loop hread hlt) fun a rest h => hf a rest (hlt a rest h)
  rw [bind_assoc] at hround
  exact hround

end Mirrors

end KLang
