import KLang.Proofs.Grammar.Nesting
import KLang.Proofs.Parsing.Statement
import Mathlib.Data.List.Forall2

/-!
# The separators of printed items

A `+` in a print list separates items where it stands outside of parentheses, and adds where it
stands inside. So the list can be cut into its items by counting parentheses, without reading them.

* `cutAt`: tokens cut at every `+` outside of parentheses.
* `Unseparated`: tokens in which no such `+` is; `derives_items_iff` says that among printed items
  these are the expressions.
* `cutAt_eq_iff`: the cut is the only one into balanced pieces of this sort.
* `isList_items_iff`: the printed items are the pieces, each read as an expression.
-/

namespace KLang

/-- The tokens cut at every `+` outside of parentheses, if `depth` parentheses are open in front of
them. There is one piece more than there are cuts. -/
def cutAt (depth : Int) : List Token → List (List Token)
  | [] => [[]]
  | t :: ts =>
    if depth = 0 ∧ t.lexeme = .symbol .add then [] :: cutAt depth ts
    else (cutAt (depth + t.lexeme.nesting) ts).modifyHead (t :: ·)

/-- Every `+` in the tokens stands in parentheses, if `depth` of them are open in front. -/
def Sheltered (depth : Int) (u : List Token) : Prop :=
  ∀ v l w, u = v ++ ⟨.symbol .add, l⟩ :: w → depth + nesting v ≠ 0

/-- Every `+` in the tokens stands in parentheses. -/
abbrev Unseparated (u : List Token) : Prop := Sheltered 0 u

/-! ## Tokens without separators -/

namespace Sheltered

variable {depth : Int} {u v : List Token}

theorem nil : Sheltered depth [] := fun v l w h => by cases v <;> cases h

theorem cons_iff {t : Token} :
    Sheltered depth (t :: u) ↔
      ¬ (depth = 0 ∧ t.lexeme = .symbol .add) ∧ Sheltered (depth + t.lexeme.nesting) u := by
  constructor
  · refine fun h => ⟨?_, fun v l w hu => ?_⟩
    · rintro ⟨hdepth, hplus⟩
      obtain ⟨w, l⟩ := t
      obtain rfl : w = _ := hplus
      exact h [] l u rfl (by simp [hdepth])
    · have := h (t :: v) l w (by rw [hu]; rfl)
      rw [nesting_cons] at this
      omega
  · rintro ⟨hfirst, h⟩ v l w hu
    cases v with
    | nil =>
      cases hu
      simpa using hfirst
    | cons t' v =>
      cases hu
      have := h v l w rfl
      rw [nesting_cons]
      omega

theorem append_iff :
    Sheltered depth (u ++ v) ↔ Sheltered depth u ∧ Sheltered (depth + nesting u) v := by
  induction u generalizing depth with
  | nil => simp [nil]
  | cons t u ih =>
    rw [List.cons_append, cons_iff, cons_iff, ih, nesting_cons, and_assoc, Int.add_assoc]

theorem word {w : Lexeme} (l : Option Location) (h : w ≠ .symbol .add) : Sheltered depth [⟨w, l⟩] :=
  cons_iff.mpr ⟨fun hplus => h hplus.2, nil⟩

theorem enclosed (hu : Balanced u) (l r : Option Location) :
    Unseparated (⟨.symbol .lparen, l⟩ :: (u ++ [⟨.symbol .rparen, r⟩])) := by
  have hinner : Sheltered 1 u := by
    rintro v l w rfl
    have := hu.opened v (List.prefix_append _ _)
    omega
  exact cons_iff.mpr ⟨nofun, append_iff.mpr ⟨hinner, word r nofun⟩⟩

end Sheltered

theorem BinaryOperator.word_eq_add_iff {op : BinaryOperator} :
    op.word = .symbol .add ↔ op = .add := by
  match op with
  | .compare op => cases op <;> simp [word]
  | .bitwise op => cases op <;> simp [word]
  | .add | .sub | .mul | .div | .rem | .pow => simp [word]

theorem unseparated_append {u v : List Token} (hu : Balanced u) :
    Unseparated (u ++ v) ↔ Unseparated u ∧ Unseparated v := by
  rw [Unseparated, Sheltered.append_iff, hu.settled, Int.add_zero]

theorem unseparated_append_cons {u v : List Token} {w : Lexeme} {l : Option Location}
    (hu : Balanced u) (hw : w.nesting = 0) :
    Unseparated (u ++ ⟨w, l⟩ :: v) ↔ Unseparated u ∧ w ≠ .symbol .add ∧ Unseparated v := by
  simp [unseparated_append hu, Unseparated, Sheltered.cons_iff, hw]

theorem Derives.unseparated {mode : Mode} {s : Stratum} {u : List Token} {e : Expr}
    (h : Derives mode s u e) (hmode : mode = .items) : Unseparated u := by
  induction h with
  | next _ ih => exact ih hmode
  | @binary mode op u v left right l _ hadmits hleft _ ihleft ihright =>
    have hplus : op.word ≠ .symbol .add := by
      rw [Ne, BinaryOperator.word_eq_add_iff]
      exact hadmits.resolve_left (by rw [hmode]; nofun)
    exact (unseparated_append_cons hleft.closed.toBalanced op.nesting_word).mpr
      ⟨ihleft hmode, hplus, ihright hmode⟩
  | power l hbase _ ihbase ihexponent =>
    exact (unseparated_append_cons hbase.closed.toBalanced rfl).mpr
      ⟨ihbase hmode, nofun, ihexponent hmode⟩
  | unary l op _ ih => cases op <;> exact Sheltered.cons_iff.mpr ⟨nofun, ih hmode⟩
  | call l r hcallee separated harguments ihcallee _ =>
    have hv := separated.closed rfl fun u hu => by
      obtain ⟨a, ha, rfl⟩ := List.mem_map.mp hu
      exact (harguments a ha).closed
    exact (unseparated_append hcallee.closed.toBalanced).mpr
      ⟨ihcallee hmode, .enclosed hv.toBalanced l r⟩
  | member l r name hmodule ih =>
    exact (unseparated_append_cons hmodule.closed.toBalanced rfl).mpr
      ⟨ih hmode, nofun, .word r nofun⟩
  | step l op hname ih =>
    cases op <;> exact (unseparated_append_cons hname.closed.toBalanced rfl).mpr
      ⟨ih hmode, nofun, .nil⟩
  | number l | string l | name l => exact .word l nofun
  | grouped l r h _ => exact .enclosed h.closed.toBalanced l r

/-- What is in parentheses is read in plain mode anyway, and outside of them no `+` is an operator
in either mode. -/
theorem Derives.in_mode {mode mode' : Mode} {s : Stratum} {u : List Token} {e : Expr}
    (h : Derives mode s u e) (hu : mode' = .items → Unseparated u) : Derives mode' s u e := by
  induction h with
  | next _ ih => exact .next (ih hu)
  | @binary mode op u v left right l hop _ hleft _ ihleft ihright =>
    have hsplit (hmode : mode' = .items) :=
      (unseparated_append_cons hleft.closed.toBalanced op.nesting_word).mp (hu hmode)
    have hadmits : mode'.Admits op := by
      cases mode' with
      | plain => exact .inl rfl
      | items => exact .inr (mt BinaryOperator.word_eq_add_iff.mpr (hsplit rfl).2.1)
    exact .binary l hop hadmits (ihleft fun h => (hsplit h).1) (ihright fun h => (hsplit h).2.2)
  | power l hbase _ ihbase ihexponent =>
    have hsplit (hmode : mode' = .items) :=
      (unseparated_append_cons hbase.closed.toBalanced rfl).mp (hu hmode)
    exact .power l (ihbase fun h => (hsplit h).1) (ihexponent fun h => (hsplit h).2.2)
  | unary l op _ ih =>
    refine .unary l op (ih fun h => ?_)
    cases op <;> exact (Sheltered.cons_iff.mp (hu h)).2
  | call l r hcallee separated harguments ihcallee _ =>
    refine .call l r (ihcallee fun h => ?_) separated harguments
    exact ((unseparated_append hcallee.closed.toBalanced).mp (hu h)).1
  | member l r name hmodule ih =>
    refine .member l r name (ih fun h => ?_)
    exact ((unseparated_append hmodule.closed.toBalanced).mp (hu h)).1
  | step l op hname ih =>
    refine .step l op (ih fun h => ?_)
    exact ((unseparated_append hname.closed.toBalanced).mp (hu h)).1
  | number l spelling value => exact .number l spelling value
  | string l text => exact .string l text
  | name l name => exact .name l name
  | grouped l r h _ => exact .grouped l r h

/-- Among printed items, an expression is one without separators. -/
theorem derives_items_iff {s : Stratum} {u : List Token} {e : Expr} :
    Derives .items s u e ↔ Derives .plain s u e ∧ Unseparated u :=
  ⟨fun h => ⟨h.in_mode nofun, h.unseparated rfl⟩, fun h => h.1.in_mode fun _ => h.2⟩

/-! ## Cutting at separators -/

theorem cutAt_append {depth : Int} {u : List Token} (hu : Sheltered depth u) (w : List Token) :
    cutAt depth (u ++ w) = (cutAt (depth + nesting u) w).modifyHead (u ++ ·) := by
  induction u generalizing depth with
  | nil =>
    rw [nesting_nil, Int.add_zero]
    exact (congrFun List.modifyHead_id _).symm
  | cons t u ih =>
    obtain ⟨hfirst, hu⟩ := Sheltered.cons_iff.mp hu
    rw [List.cons_append, cutAt, if_neg hfirst, ih hu, List.modifyHead_modifyHead, nesting_cons,
      Int.add_assoc]
    rfl

theorem cutAt_of_behind {u w : List Token} {us : List (List Token)} (h : Behind .add us w)
    (hu : Balanced u ∧ Unseparated u) (hus : ∀ u ∈ us, Balanced u ∧ Unseparated u) :
    cutAt 0 (u ++ w) = u :: us := by
  induction h generalizing u with
  | nil =>
    rw [cutAt_append hu.2]
    simp [cutAt]
  | @cons u' us w l more ih =>
    obtain ⟨hu', hus⟩ := List.forall_mem_cons.mp hus
    rw [cutAt_append hu.2, hu.1.settled, Int.add_zero, cutAt, if_pos ⟨rfl, rfl⟩, ih hu' hus]
    simp

theorem exists_of_cutAt (depth : Int) (v : List Token) :
    ∃ u us w, cutAt depth v = u :: us ∧ v = u ++ w ∧ Behind .add us w ∧ Sheltered depth u ∧
      ∀ u ∈ us, Unseparated u := by
  induction v generalizing depth with
  | nil => exact ⟨[], [], [], rfl, rfl, .nil, .nil, by simp⟩
  | cons t ts ih =>
    by_cases hcut : depth = 0 ∧ t.lexeme = .symbol .add
    · obtain ⟨hdepth, hplus⟩ := hcut
      obtain ⟨w, l⟩ := t
      obtain rfl : w = _ := hplus
      subst hdepth
      obtain ⟨u, us, w, hcut, rfl, hbehind, hu, hus⟩ := ih 0
      refine ⟨[], u :: us, _, ?_, rfl, .cons l hbehind, .nil, List.forall_mem_cons.mpr ⟨hu, hus⟩⟩
      rw [cutAt, if_pos ⟨rfl, rfl⟩, hcut]
    · obtain ⟨u, us, w, hcut', rfl, hbehind, hu, hus⟩ := ih (depth + t.lexeme.nesting)
      refine ⟨t :: u, us, w, ?_, rfl, hbehind, Sheltered.cons_iff.mpr ⟨hcut, hu⟩, hus⟩
      rw [cutAt, if_neg hcut, hcut']
      rfl

/-- Among the lists of balanced pieces, the cut is the one with separators between the pieces and
none inside. -/
theorem cutAt_eq_iff {v : List Token} {us : List (List Token)} (hus : ∀ u ∈ us, Balanced u) :
    cutAt 0 v = us ↔ us ≠ [] ∧ Separated .add us v ∧ ∀ u ∈ us, Unseparated u := by
  constructor
  · rintro rfl
    obtain ⟨u, us, w, hcut, rfl, hbehind, hu, hus⟩ := exists_of_cutAt 0 v
    rw [hcut]
    exact ⟨nofun, .cons hbehind, List.forall_mem_cons.mpr ⟨hu, hus⟩⟩
  · rintro ⟨hne, hseparated, hpieces⟩
    cases hseparated with
    | nil => exact absurd rfl hne
    | cons more =>
      have hall := List.forall_mem_cons.mp fun u hu => And.intro (hus u hu) (hpieces u hu)
      exact cutAt_of_behind more hall.1 hall.2

/-! ## Printed items -/

theorem forall₂_iff_exists_pairs {α β : Type} {R : α → β → Prop} {as : List α} {bs : List β} :
    List.Forall₂ R as bs ↔ ∃ pairs : List (α × β),
      as = pairs.map Prod.fst ∧ bs = pairs.map Prod.snd ∧ ∀ p ∈ pairs, R p.1 p.2 := by
  constructor
  · intro h
    induction h with
    | nil => exact ⟨[], rfl, rfl, by simp⟩
    | @cons a b as bs h _ ih =>
      obtain ⟨pairs, rfl, rfl, hpairs⟩ := ih
      exact ⟨(a, b) :: pairs, rfl, rfl, List.forall_mem_cons.mpr ⟨h, hpairs⟩⟩
  · rintro ⟨pairs, rfl, rfl, hpairs⟩
    rw [List.forall₂_map_left_iff, List.forall₂_map_right_iff, List.forall₂_same]
    exact hpairs

/-- Printed items are the pieces of their tokens, each an expression. -/
theorem isList_items_iff {v : List Token} {es : List Expr} :
    IsList .add (IsExpr .items) v es ↔
      v = [] ∧ es = [] ∨ List.Forall₂ (IsExpr .plain) (cutAt 0 v) es := by
  constructor
  · rintro ⟨pieces, hseparated, hpieces, rfl⟩
    have hbalanced : ∀ u ∈ pieces.map Prod.fst, Balanced u := fun u hu => by
      obtain ⟨p, hp, rfl⟩ := List.mem_map.mp hu
      exact (hpieces p hp).closed.toBalanced
    have hunseparated : ∀ u ∈ pieces.map Prod.fst, Unseparated u := fun u hu => by
      obtain ⟨p, hp, rfl⟩ := List.mem_map.mp hu
      exact (hpieces p hp).unseparated rfl
    by_cases hne : pieces = []
    · subst hne
      cases hseparated
      exact .inl ⟨rfl, rfl⟩
    · right
      rw [(cutAt_eq_iff hbalanced).mpr ⟨by simpa using hne, hseparated, hunseparated⟩,
        forall₂_iff_exists_pairs]
      exact ⟨pieces, rfl, rfl, fun p hp => (derives_items_iff.mp (hpieces p hp)).1⟩
  · rintro (⟨rfl, rfl⟩ | h)
    · exact ⟨[], .nil, by simp, rfl⟩
    · obtain ⟨pieces, hcut, rfl, hpieces⟩ := forall₂_iff_exists_pairs.mp h
      have hbalanced : ∀ u ∈ pieces.map Prod.fst, Balanced u := fun u hu => by
        obtain ⟨p, hp, rfl⟩ := List.mem_map.mp hu
        exact (hpieces p hp).closed.toBalanced
      obtain ⟨-, hseparated, hunseparated⟩ := (cutAt_eq_iff hbalanced).mp hcut
      refine ⟨pieces, hseparated, fun p hp => ?_, rfl⟩
      exact derives_items_iff.mpr ⟨hpieces p hp, hunseparated _ (List.mem_map_of_mem hp)⟩

/-- A print statement with the tokens `ts` in its parentheses, in front of other tokens. -/
def printTokens (l l₁ r r₁ : Option Location) (ts rest : List Token) : List Token :=
  ⟨.keyword .printWord, l⟩ :: ⟨.symbol .lparen, l₁⟩ ::
    (ts ++ ⟨.symbol .rparen, r⟩ :: ⟨.symbol .semicolon, r₁⟩ :: rest)

theorem parseStatement_printTokens_eq_ok {eof l l₁ r r₁ : Option Location}
    {ts rest rest' : List Token} {s : Statement} (hts : Balanced ts) :
    outcome (parseStatement eof (printTokens l l₁ r r₁ ts rest)) = .ok (s, rest') ↔
      rest' = rest ∧ ∃ es, s = .print l es ∧ (ts = [] ∧ es = [] ∨
        List.Forall₂ (fun u e => outcome (parseExpr eof .plain u) = .ok (e, []))
          (cutAt 0 ts) es) := by
  have hpiece (u : List Token) (e : Expr) :
      outcome (parseExpr eof .plain u) = .ok (e, []) ↔ IsExpr .plain u e := by
    have happend : outcome (parseExpr eof .plain (u ++ [])) = .ok (e, []) ↔ IsExpr .plain u e :=
      outcome_parseExpr_append_eq_ok rfl
    rwa [List.append_nil] at happend
  simp only [hpiece, printTokens, outcome_parseStatement_print, parsePrint_eq_ok,
    ← isList_items_iff]
  constructor
  · rintro ⟨l₁', v, es, r', r₁', h, hes, rfl⟩
    have hv : Closed v := hes.closed rfl fun _ _ => Derives.closed
    obtain ⟨rfl, -, hrest⟩ := hts.eq_of_append hv.toBalanced (List.cons.inj h).2
    exact ⟨(List.cons.inj hrest).2.symm, es, rfl, hes⟩
  · rintro ⟨rfl, es, rfl, hes⟩
    exact ⟨l₁, ts, es, r, r₁, rfl, hes, rfl⟩

theorem exists_forall₂_iff {α β : Type} {R : α → β → Prop} {as : List α} :
    (∃ bs, List.Forall₂ R as bs) ↔ ∀ a ∈ as, ∃ b, R a b := by
  induction as with
  | nil => simp
  | cons a as ih =>
    rw [List.forall_mem_cons, ← ih]
    constructor
    · rintro ⟨_, h⟩
      cases h with
      | cons h hs => exact ⟨⟨_, h⟩, _, hs⟩
    · rintro ⟨⟨b, h⟩, bs, hs⟩
      exact ⟨b :: bs, .cons h hs⟩

end KLang
