import KLang.Proofs.Parsing.Expression

/-!
# Failing at the earliest token

A parser reads from left to right and looks at most one token ahead. So what it makes of tokens
depends on these tokens and the next one only, and where it fails it has not yet gone wrong before
the token that it reports. Both are said together, since both follow the order of reading, and there
is one rule for each way in which parsers are put together.

* `ParseFault.ahead`: how many of the reported tokens were read when a fault was noticed.
* `Viable`: tokens that can be continued to something of a grammar.
* `FailsAt`, `Early`: a failure at the earliest token, and a parser all of whose failures are such.
* `Early.bind`, `Early.cons`, `Early.congr`, `Early.fail`: the rules.
-/

namespace KLang

/-- How many of the tokens that a fault is about were already read when it was noticed. -/
def ParseFault.ahead : ParseFault → Nat
  | .moduleName | .postfixTarget => 1
  | .duplicateParameter _ => 2
  | _ => 0

/-- The tokens can be continued to something that the grammar has. -/
def Viable {α : Type} (Is : List Token → α → Prop) (before : List Token) : Prop :=
  ∃ w a, Is (before ++ w) a

/-- A parser without the proof in its result. -/
abbrev Reader (α : Type) := List Token → Except ParseError (α × List Token)

variable {α β : Type} {ts u : List Token}

theorem Viable.of_is {Is : List Token → α → Prop} {a : α} (h : Is u a) : Viable Is u :=
  ⟨[], a, by rwa [List.append_nil]⟩

theorem Viable.of_append {Is : List Token → α → Prop} {v : List Token} (h : Viable Is (u ++ v)) :
    Viable Is u := by
  obtain ⟨w, a, h⟩ := h
  exact ⟨v ++ w, a, by rwa [← List.append_assoc]⟩

theorem Viable.part {Is : List Token → α → Prop} {Is' : List Token → β → Prop}
    (h : Viable Is u) (pre : List Token) (hpart : ∀ v a, Is v a → Viable Is' (pre ++ v)) :
    Viable Is' (pre ++ u) := by
  obtain ⟨w, a, h⟩ := h
  have hwhole := hpart _ a h
  rw [← List.append_assoc] at hwhole
  exact hwhole.of_append

/-! ## Early failures -/

variable (eof : Option Location)

/-- The reader fails behind the tokens `before`, at the tokens `reported` that it has read already or
at the next one, and it fails there whatever comes later. Up to there nothing was wrong. -/
structure FailsAt (F : Reader α) (Good : List Token → Prop) (before reported : List Token)
    (p : ParseError) : Prop where
  good : Good before
  length : reported.length = p.fault.ahead
  location : p.location = frontLocation eof (reported ++ p.rest)
  repeated (name : String) : p.fault = .duplicateParameter name →
    ∃ kind l l', reported = [⟨.keyword (.kind kind), l⟩, ⟨.identifier name, l'⟩]
  depends (rest : List Token) : (reported = [] → rest.head? = p.rest.head?) →
    F (before ++ (reported ++ rest)) = .error { p with rest }

/-- What the reader makes of the tokens depends on what it reads and the token behind it, and if it
fails it fails as early as possible. -/
structure Early (F : Reader α) (Good : List Token → Prop) (ts : List Token) : Prop where
  ok (a : α) (rest : List Token) : F ts = .ok (a, rest) →
    ∃ u, ts = u ++ rest ∧ ∀ rest', rest'.head? = rest.head? → F (u ++ rest') = .ok (a, rest')
  error (p : ParseError) : F ts = .error p →
    ∃ before reported, ts = before ++ (reported ++ p.rest) ∧
      FailsAt eof F Good before reported p

variable {eof} {F : Reader α} {Good Good' : List Token → Prop}

theorem head?_append_congr {rest rest' : List Token} (u : List Token)
    (h : rest'.head? = rest.head?) : (u ++ rest').head? = (u ++ rest).head? := by
  rw [List.head?_append, List.head?_append, h]

theorem front_eq_of_head? {ts' : List Token} (h : ts'.head? = ts.head?) : front ts' = front ts :=
  congrArg (Option.map Token.lexeme) h

theorem Early.pure (a : α) : Early eof (fun ts => .ok (a, ts)) Good ts where
  ok _ _ h := by
    cases h
    exact ⟨[], rfl, fun _ _ => rfl⟩
  error _ h := by cases h

theorem Early.mono (h : Early eof F Good ts) (hgood : ∀ before, Good before → Good' before) :
    Early eof F Good' ts where
  ok := h.ok
  error p hp := by
    obtain ⟨before, reported, hts, hfails⟩ := h.error p hp
    exact ⟨before, reported, hts, { hfails with good := hgood _ hfails.good }⟩

theorem Early.congr {G : Reader α} (hFG : ∀ ts', ts'.head? = ts.head? → F ts' = G ts')
    (h : Early eof G Good ts) : Early eof F Good ts where
  ok a rest hF := by
    rw [hFG ts rfl] at hF
    obtain ⟨u, rfl, hdepends⟩ := h.ok a rest hF
    refine ⟨u, rfl, fun rest' hrest => ?_⟩
    rw [hFG _ (head?_append_congr u hrest)]
    exact hdepends rest' hrest
  error p hF := by
    rw [hFG ts rfl] at hF
    obtain ⟨before, reported, rfl, hfails⟩ := h.error p hF
    refine ⟨before, reported, rfl, { hfails with depends := fun rest hrest => ?_ }⟩
    have hhead : (reported ++ rest).head? = (reported ++ p.rest).head? := by
      cases reported with
      | nil => exact hrest rfl
      | cons => rfl
    rw [hFG _ (head?_append_congr before hhead)]
    exact hfails.depends rest hrest

theorem Early.cons {t : Token} {G : Reader α} (hFG : ∀ ts', F (t :: ts') = G ts')
    (h : Early eof G (fun before => Good (t :: before)) ts) : Early eof F Good (t :: ts) where
  ok a rest hF := by
    rw [hFG] at hF
    obtain ⟨u, rfl, hdepends⟩ := h.ok a rest hF
    exact ⟨t :: u, rfl, fun rest' hrest => (hFG _).trans (hdepends rest' hrest)⟩
  error p hF := by
    rw [hFG] at hF
    obtain ⟨before, reported, rfl, hfails⟩ := h.error p hF
    exact ⟨t :: before, reported, rfl,
      { hfails with depends := fun rest hrest => (hFG _).trans (hfails.depends rest hrest) }⟩

theorem Early.bind {G : α × List Token → Except ParseError (β × List Token)}
    (hF : Early eof F Good ts) (hgood : ∀ before, Good before → Good' before)
    (hG : ∀ a rest, F ts = .ok (a, rest) → ∃ u, ts = u ++ rest ∧
      Early eof (fun rest => G (a, rest)) (fun before => Good' (u ++ before)) rest) :
    Early eof (fun ts => F ts >>= G) Good' ts where
  ok b rest h := by
    obtain ⟨a, rest₁, hread, hmore⟩ := bind_eq_ok.mp h
    obtain ⟨u, rfl, hdepends⟩ := hF.ok a rest₁ hread
    obtain ⟨u', hu, hearly⟩ := hG a rest₁ hread
    obtain ⟨v, rfl, hdepends'⟩ := hearly.ok b rest hmore
    refine ⟨u ++ v, (List.append_assoc ..).symm, fun rest' hrest => ?_⟩
    rw [List.append_assoc, hdepends _ (head?_append_congr v hrest)]
    exact hdepends' rest' hrest
  error p h := by
    cases hread : F ts with
    | error q =>
      rw [hread] at h
      cases h
      obtain ⟨before, reported, rfl, hfails⟩ := hF.error p hread
      refine ⟨before, reported, rfl, { hfails with good := hgood _ hfails.good, depends := ?_ }⟩
      intro rest hrest
      rw [hfails.depends rest hrest]
      rfl
    | ok r =>
      obtain ⟨a, rest₁⟩ := r
      rw [hread] at h
      obtain ⟨u, rfl, hdepends⟩ := hF.ok a rest₁ hread
      obtain ⟨u', hu, hearly⟩ := hG a rest₁ hread
      obtain rfl := List.append_cancel_right hu
      obtain ⟨before, reported, rfl, hfails⟩ := hearly.error p h
      refine ⟨u ++ before, reported, (List.append_assoc ..).symm,
        { hfails with depends := fun rest hrest => ?_ }⟩
      have hhead : (reported ++ rest).head? = (reported ++ p.rest).head? := by
        cases reported with
        | nil => exact hrest rfl
        | cons => rfl
      rw [List.append_assoc, hdepends _ (head?_append_congr before hhead)]
      exact hfails.depends rest hrest

theorem Early.fail (fault : ParseFault) (reported : List Token) {rest : List Token} (hgood : Good [])
    (hlength : reported.length = fault.ahead)
    (hrepeated : ∀ name, fault = .duplicateParameter name →
      ∃ kind l l', reported = [⟨.keyword (.kind kind), l⟩, ⟨.identifier name, l'⟩])
    (hF : ∀ rest', (reported = [] → rest'.head? = rest.head?) →
      F (reported ++ rest') = .error ⟨fault, frontLocation eof (reported ++ rest'), rest'⟩) :
    Early eof F Good (reported ++ rest) where
  ok a rest' h := by
    rw [hF rest fun _ => rfl] at h
    cases h
  error p h := by
    rw [hF rest fun _ => rfl] at h
    cases h
    refine ⟨[], reported, rfl, hgood, hlength, rfl, hrepeated, fun rest' hrest => ?_⟩
    rw [List.nil_append, hF rest' hrest]
    have hlocation : frontLocation eof (reported ++ rest') = frontLocation eof (reported ++ rest) := by
      cases reported with
      | nil =>
        have hhead := hrest rfl
        cases rest <;> cases rest' <;> simp_all [frontLocation]
      | cons => rfl
    rw [hlocation]

theorem Early.failFront (fault : Option Lexeme → ParseFault) (hgood : Good [])
    (hahead : (fault (front ts)).ahead = 0)
    (hF : ∀ ts', ts'.head? = ts.head? → F ts' = KLang.failFront eof fault ts') :
    Early eof F Good ts := by
  refine Early.fail _ [] hgood hahead.symm (fun name hname => ?_) fun rest' hrest => ?_
  · rw [hname] at hahead
    cases hahead
  · have hhead := hrest rfl
    rw [List.nil_append, hF rest' hhead, KLang.failFront, front_eq_of_head? hhead]

/-! ## Parts of a grammar -/

variable (eof)

/-- The reader follows the grammar on these tokens: it reads something that the grammar has, or fails
at the earliest token. -/
structure Follows (F : Reader α) (Is : List Token → α → Prop) (ts : List Token) : Prop where
  early : Early eof F (Viable Is) ts
  sound (a : α) (rest : List Token) : F ts = .ok (a, rest) → ∃ u, ts = u ++ rest ∧ Is u a

variable {eof}

theorem Follows.bind {γ : Type} {Is : List Token → α → Prop} {Is' : List Token → γ → Prop}
    {G : α × List Token → Except ParseError (β × List Token)} (h : Follows eof F Is ts)
    (pre : List Token) (hpart : ∀ u a, Is u a → Viable Is' (pre ++ u))
    (hG : ∀ u a rest, ts = u ++ rest → Is u a → F ts = .ok (a, rest) →
      Early eof (fun rest => G (a, rest)) (fun before => Viable Is' (pre ++ u ++ before)) rest) :
    Early eof (fun ts => F ts >>= G) (fun before => Viable Is' (pre ++ before)) ts := by
  refine h.early.bind (fun before hbefore => hbefore.part pre hpart) fun a rest hread => ?_
  obtain ⟨u, hts, hu⟩ := h.sound a rest hread
  have hmore := hG u a rest hts hu hread
  simp only [List.append_assoc] at hmore
  exact ⟨u, hts, hmore⟩

/-! ## Single tokens -/

/-- The symbol alone, at the location. -/
def IsSymbol (s : Symbol) (u : List Token) (l : Option Location) : Prop := u = [⟨.symbol s, l⟩]

/-- An identifier alone. -/
def IsName (u : List Token) (name : String) : Prop := ∃ l, u = [⟨.identifier name, l⟩]

theorem Follows.token {Is : List Token → α → Prop} (fault : Option Lexeme → ParseFault)
    (hahead : ∀ w, (fault w).ahead = 0) (hviable : Viable Is [])
    (h : (∃ a t rest, ts = t :: rest ∧ Is [t] a ∧ ∀ rest', F (t :: rest') = .ok (a, rest')) ∨
      ∀ ts', ts'.head? = ts.head? → F ts' = failFront eof fault ts') :
    Follows eof F Is ts := by
  obtain ⟨a, t, rest, rfl, ht, hread⟩ | hfail := h
  · refine ⟨.cons hread (.pure a), fun a' rest' h => ?_⟩
    cases (hread rest).symm.trans h
    exact ⟨[t], rfl, ht⟩
  · refine ⟨.failFront fault hviable (hahead _) hfail, fun a rest h => ?_⟩
    rw [hfail ts rfl] at h
    cases h

theorem outcome_expect_of_ne {s : Symbol} (h : front ts ≠ some (.symbol s)) :
    outcome (expect eof s ts) = failFront eof (.expectedSymbol s) ts := by
  unfold expect
  split
  · split
    · rename_i hs
      exact absurd (congrArg (some ∘ Lexeme.symbol) hs) h
    · rfl
  · rfl

theorem outcome_expectName_of_ne (h : ∀ name, front ts ≠ some (.identifier name)) :
    outcome (expectName eof ts) = failFront eof .expectedIdentifier ts := by
  unfold expectName
  split
  · exact absurd rfl (h _)
  · rfl

theorem outcome_expectKind_of_ne (h : ∀ kind, front ts ≠ some (.keyword (.kind kind))) :
    outcome (expectKind eof ts) = failFront eof .expectedKind ts := by
  unfold expectKind
  split
  · exact absurd rfl (h _)
  · rfl

theorem expect_follows (s : Symbol) (ts : List Token) :
    Follows eof (fun ts => outcome (expect eof s ts)) (IsSymbol s) ts := by
  refine .token (.expectedSymbol s) (fun _ => rfl) ⟨_, none, rfl⟩ ?_
  by_cases hs : front ts = some (.symbol s)
  · obtain ⟨l, rest, rfl⟩ := front_eq_some.mp hs
    exact .inl ⟨l, _, rest, rfl, rfl, fun rest' => (outcome_expect_eq_ok eof).mpr rfl⟩
  · refine .inr fun ts' hhead => outcome_expect_of_ne ?_
    rwa [front_eq_of_head? hhead]

theorem expectName_follows (ts : List Token) :
    Follows eof (fun ts => outcome (expectName eof ts)) IsName ts := by
  refine .token .expectedIdentifier (fun _ => rfl) ⟨_, "x", none, rfl⟩ ?_
  by_cases hname : ∃ name, front ts = some (.identifier name)
  · obtain ⟨name, hname⟩ := hname
    obtain ⟨l, rest, rfl⟩ := front_eq_some.mp hname
    exact .inl ⟨name, _, rest, rfl, ⟨l, rfl⟩, fun _ => (outcome_expectName_eq_ok eof).mpr ⟨l, rfl⟩⟩
  · refine .inr fun ts' hhead => outcome_expectName_of_ne fun name h => ?_
    rw [front_eq_of_head? hhead] at h
    exact hname ⟨name, h⟩

end KLang
