import KLang.Proofs.Grammar.Statement

/-!
# Nesting of parentheses

* `nesting`: how many parentheses tokens open and do not close.
* `Balanced`: every parenthesis in the tokens is closed in them by one behind it. There is only one
  way to cut tokens at the `)` that matches a `(` in front of them, `Balanced.eq_of_append`.
* `Closed`: balanced tokens that do not end in `print`, so a `(` behind them begins no print list.
* `Derives.closed`, `IsStatement.closed`: whatever the grammar derives is closed.
-/

namespace KLang

/-- What a word adds to the number of open parentheses. -/
def Lexeme.nesting : Lexeme → Int
  | .symbol .lparen => 1
  | .symbol .rparen => -1
  | _ => 0

/-- The number of parentheses that the tokens open, less those that they close. -/
def nesting : List Token → Int
  | [] => 0
  | t :: ts => t.lexeme.nesting + nesting ts

/-- Every parenthesis in the tokens is closed in them, by one behind it. -/
structure Balanced (ts : List Token) : Prop where
  settled : nesting ts = 0
  opened : ∀ u, u <+: ts → 0 ≤ nesting u

/-- Balanced tokens that do not end in `print`. -/
structure Closed (ts : List Token) : Prop extends Balanced ts where
  last : ∀ t ∈ ts.getLast?, t.lexeme ≠ .keyword .printWord

@[simp] theorem nesting_nil : nesting [] = 0 := rfl

@[simp] theorem nesting_cons (t : Token) (ts : List Token) :
    nesting (t :: ts) = t.lexeme.nesting + nesting ts := rfl

@[simp] theorem nesting_append (u v : List Token) : nesting (u ++ v) = nesting u + nesting v := by
  induction u with
  | nil => simp
  | cons t u ih => simp [ih, Int.add_assoc]

/-! ## Balanced tokens -/

theorem prefix_append_cases {α : Type} {w u v : List α} (h : w <+: u ++ v) :
    w <+: u ∨ ∃ x, x <+: v ∧ w = u ++ x := by
  obtain h' | ⟨x, rfl⟩ := List.prefix_or_prefix_of_prefix h (List.prefix_append u v)
  · exact .inl h'
  · exact .inr ⟨x, (List.prefix_append_right_inj u).mp h, rfl⟩

namespace Balanced

variable {u v : List Token}

theorem nil : Balanced [] := by
  refine ⟨rfl, fun w h => ?_⟩
  rw [List.prefix_nil.mp h]
  exact Int.le_refl _

theorem word {w : Lexeme} (h : w.nesting = 0) (l : Option Location) : Balanced [⟨w, l⟩] := by
  refine ⟨by simp [h], fun w h' => ?_⟩
  obtain rfl | ⟨x, rfl, hx⟩ := List.prefix_cons_iff.mp h'
  · exact Int.le_refl _
  · rw [List.prefix_nil.mp hx]
    simp [h]

theorem append (hu : Balanced u) (hv : Balanced v) : Balanced (u ++ v) := by
  refine ⟨by rw [nesting_append, hu.settled, hv.settled]; rfl, fun w h => ?_⟩
  obtain h | ⟨x, hx, rfl⟩ := prefix_append_cases h
  · exact hu.opened w h
  · rw [nesting_append, hu.settled, Int.zero_add]
    exact hv.opened x hx

theorem of_append (h : Balanced (u ++ v)) (hv : Balanced v) : Balanced u := by
  have hsettled := h.settled
  rw [nesting_append, hv.settled, Int.add_zero] at hsettled
  exact ⟨hsettled, fun w hw => h.opened w (hw.trans (List.prefix_append u v))⟩

theorem enclosed (hu : Balanced u) (l r : Option Location) :
    Balanced (⟨.symbol .lparen, l⟩ :: (u ++ [⟨.symbol .rparen, r⟩])) := by
  refine ⟨by simp [Lexeme.nesting, hu.settled], fun w h => ?_⟩
  obtain rfl | ⟨x, rfl, hx⟩ := List.prefix_cons_iff.mp h
  · exact Int.le_refl _
  · rw [nesting_cons]
    obtain hx | hx := List.prefix_concat_iff.mp hx
    · simp [hx, Lexeme.nesting, hu.settled]
    · have hopened := hu.opened x hx
      simp only [Lexeme.nesting]
      omega

theorem not_append_rparen (hu : Balanced u) (hv : Balanced v) (r : Option Location) :
    ¬ u ++ [⟨.symbol .rparen, r⟩] <+: v := by
  intro h
  have hopened := hv.opened _ h
  simp [hu.settled, Lexeme.nesting] at hopened

/-- Only one `)` matches a `(` in front of the tokens. -/
theorem eq_of_append {x y : List Token} {r r' : Option Location} (hu : Balanced u)
    (hv : Balanced v) (h : u ++ ⟨.symbol .rparen, r⟩ :: x = v ++ ⟨.symbol .rparen, r'⟩ :: y) :
    u = v ∧ r = r' ∧ x = y := by
  obtain ⟨z, rfl, hz⟩ | ⟨z, rfl, hz⟩ := List.append_eq_append_iff.mp h
  · cases z with
    | nil => simpa using hz
    | cons t z =>
      cases hz
      exact absurd (List.prefix_append_right_inj u |>.mpr ⟨z, rfl⟩) (not_append_rparen hu hv r)
  · cases z with
    | nil => simpa [eq_comm] using hz
    | cons t z =>
      cases hz
      exact absurd (List.prefix_append_right_inj v |>.mpr ⟨z, rfl⟩) (not_append_rparen hv hu r')

end Balanced

/-! ## Closed tokens -/

theorem forall_getLast?_append {α : Type} {p : α → Prop} {u v : List α}
    (hu : ∀ a ∈ u.getLast?, p a) (hv : ∀ a ∈ v.getLast?, p a) : ∀ a ∈ (u ++ v).getLast?, p a := by
  intro a ha
  rw [List.getLast?_append] at ha
  cases hlast : v.getLast? with
  | none => exact hu a (by simpa [hlast] using ha)
  | some b => exact hv a (by simpa [hlast] using ha)

namespace Closed

variable {u v : List Token}

theorem nil : Closed [] := ⟨Balanced.nil, fun _ ht => by cases ht⟩

theorem word {w : Lexeme} (l : Option Location) (h : w.nesting = 0)
    (hprint : w ≠ .keyword .printWord) : Closed [⟨w, l⟩] :=
  ⟨.word h l, fun _ ht => by cases ht; exact hprint⟩

theorem append (hu : Closed u) (hv : Closed v) : Closed (u ++ v) :=
  ⟨hu.toBalanced.append hv.toBalanced, forall_getLast?_append hu.last hv.last⟩

theorem cons {w : Lexeme} (l : Option Location) (h : w.nesting = 0) (hu : Closed u)
    (hprint : w ≠ .keyword .printWord) : Closed (⟨w, l⟩ :: u) :=
  append (word l h hprint) hu

theorem cons_cons {t : Token} {w : Lexeme} (l : Option Location) (h : w.nesting = 0)
    (hu : Closed (t :: u)) : Closed (⟨w, l⟩ :: t :: u) :=
  ⟨(Balanced.word h l).append hu.toBalanced, fun t ht => hu.last t (by simpa using ht)⟩

theorem enclosed (hu : Balanced u) (l r : Option Location) :
    Closed (⟨.symbol .lparen, l⟩ :: (u ++ [⟨.symbol .rparen, r⟩])) := by
  refine ⟨hu.enclosed l r, fun t ht => ?_⟩
  rw [← List.cons_append, List.getLast?_concat] at ht
  cases ht
  nofun

end Closed

/-! ## Derived tokens are closed -/

/-- Lists of closed tokens with separators are closed. -/
theorem Behind.closed {separator : Symbol} {us : List (List Token)} {w : List Token}
    (h : Behind separator us w) (hseparator : (Lexeme.symbol separator).nesting = 0)
    (hus : ∀ u ∈ us, Closed u) : Closed w := by
  induction h with
  | nil => exact .nil
  | cons l _ ih =>
    obtain ⟨hu, hus⟩ := List.forall_mem_cons.mp hus
    exact .cons l hseparator (hu.append (ih hus)) nofun

theorem Separated.closed {separator : Symbol} {us : List (List Token)} {w : List Token}
    (h : Separated separator us w) (hseparator : (Lexeme.symbol separator).nesting = 0)
    (hus : ∀ u ∈ us, Closed u) : Closed w := by
  cases h with
  | nil => exact .nil
  | cons more =>
    obtain ⟨hu, hus⟩ := List.forall_mem_cons.mp hus
    exact hu.append (more.closed hseparator hus)

theorem IsList.closed {α : Type} {separator : Symbol} {IsPiece : List Token → α → Prop}
    {v : List Token} {as : List α} (h : IsList separator IsPiece v as)
    (hseparator : (Lexeme.symbol separator).nesting = 0)
    (hpieces : ∀ u a, IsPiece u a → Closed u) : Closed v := by
  obtain ⟨pieces, hseparated, hpiece, -⟩ := h
  refine hseparated.closed hseparator fun u hu => ?_
  obtain ⟨p, hp, rfl⟩ := List.mem_map.mp hu
  exact hpieces p.1 p.2 (hpiece p hp)

theorem BinaryOperator.nesting_word (op : BinaryOperator) : op.word.nesting = 0 := by
  match op with
  | .compare op => cases op <;> rfl
  | .bitwise op => cases op <;> rfl
  | .add | .sub | .mul | .div | .rem | .pow => rfl

theorem BinaryOperator.word_ne_print (op : BinaryOperator) : op.word ≠ .keyword .printWord := by
  match op with
  | .compare op => cases op <;> nofun
  | .bitwise op => cases op <;> nofun
  | .add | .sub | .mul | .div | .rem | .pow => nofun

theorem Derives.closed {mode : Mode} {s : Stratum} {u : List Token} {e : Expr}
    (h : Derives mode s u e) : Closed u := by
  induction h with
  | next _ ih => exact ih
  | @binary mode op u v left right l _ _ _ _ ihleft ihright =>
    exact ihleft.append (.cons l op.nesting_word ihright op.word_ne_print)
  | power l _ _ ihbase ihexponent => exact ihbase.append (.cons l rfl ihexponent nofun)
  | unary l op _ ih => cases op <;> exact .cons l rfl ih nofun
  | call l r _ separated _ ihcallee iharguments =>
    have hv := separated.closed rfl fun u hu => by
      obtain ⟨a, ha, rfl⟩ := List.mem_map.mp hu
      exact iharguments a ha
    exact ihcallee.append (.enclosed hv.toBalanced l r)
  | member l r name _ ih => exact ih.append (.cons l rfl (.word r rfl nofun) nofun)
  | step l op _ ih => cases op <;> exact ih.append (.word l rfl nofun)
  | number l | string l | name l => exact .word l rfl nofun
  | grouped l r _ ih => exact .enclosed ih.toBalanced l r

theorem IsCondition.closed {u : List Token} {e : Expr} (h : IsCondition u e) : Closed u := by
  obtain ⟨l, r, he⟩ := h
  exact .enclosed he.closed.toBalanced l r

theorem IsParameters.closed {v : List Token} {ps : List Parameter} (h : IsParameters v ps) :
    Closed v := by
  refine h.1.closed rfl fun u p hp => ?_
  obtain ⟨l, l', kind, name⟩ := hp
  exact .cons l rfl (.word l' rfl nofun) nofun

theorem IsHeader.closed {u : List Token} {header : Kind × String × List Parameter}
    (h : IsHeader u header) : Closed u := by
  obtain ⟨l, l', r, name, hkind, hparameters⟩ := h
  have hrest := Closed.cons (w := .identifier name) l rfl
    (.enclosed hparameters.closed.toBalanced l' r) nofun
  cases hkind with
  | absent => exact hrest
  | given l kind => exact .cons l rfl hrest nofun

mutual

theorem IsStatement.closed {u : List Token} {s : Statement} (h : IsStatement u s) : Closed u := by
  cases h with
  | declare l l₁ l₂ r kind name h =>
    exact .cons l rfl (.cons l₁ rfl (.cons l₂ rfl (h.closed.append (.word r rfl nofun)) nofun) nofun)
      nofun
  | @print v es l l₁ r r₁ h =>
    have hv : Closed v := h.closed rfl fun _ _ => Derives.closed
    have hlist := (Closed.enclosed hv.toBalanced l₁ r).append
      (.word (w := .symbol .semicolon) r₁ rfl nofun)
    exact .cons_cons l rfl (by simpa using hlist)
  | branch l harm harms hotherwise =>
    exact .cons l rfl (harm.closed.append (harms.closed.append hotherwise.closed)) nofun
  | loop l hcondition hbody => exact .cons l rfl (hcondition.closed.append hbody.closed) nofun
  | define l hheader hbody => exact .cons l rfl (hheader.closed.append hbody.closed) nofun
  | returnNothing l r => exact .cons l rfl (.word r rfl nofun) nofun
  | returnValue l r h => exact .cons l rfl (h.closed.append (.word r rfl nofun)) nofun
  | importModule l l₁ r name => exact .cons l rfl (.cons l₁ rfl (.word r rfl nofun) nofun) nofun
  | evaluate l r name h => exact h.closed.append (.word r rfl nofun)
  | assign l l₁ r name htarget hvalue =>
    exact htarget.closed.append (.cons l₁ rfl (hvalue.closed.append (.word r rfl nofun)) nofun)

theorem IsArm.closed {l : Option Location} {u : List Token} {arm : Arm} (h : IsArm l u arm) :
    Closed u := by
  cases h with
  | mk _ hcondition hbody => exact hcondition.closed.append hbody.closed

theorem IsArms.closed {v : List Token} {arms : List Arm} (h : IsArms v arms) : Closed v := by
  cases h with
  | nil => exact .nil
  | cons l harm harms => exact .cons l rfl (harm.closed.append harms.closed) nofun

theorem IsElse.closed {w : List Token} {otherwise : Option Block} (h : IsElse w otherwise) :
    Closed w := by
  cases h with
  | absent => exact .nil
  | given l h => exact .cons l rfl h.closed nofun

theorem IsBlock.closed {u : List Token} {block : Block} (h : IsBlock u block) : Closed u := by
  cases h with
  | mk l r h => exact .cons l rfl (h.closed.append (.word r rfl nofun)) nofun

theorem IsStatements.closed {u : List Token} {ss : List Statement} (h : IsStatements u ss) :
    Closed u := by
  cases h with
  | nil => exact .nil
  | cons h more => exact h.closed.append more.closed

end

end KLang
