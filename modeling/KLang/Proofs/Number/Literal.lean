import KLang.Interpreter.Run
import KLang.Proofs.Lexing.Layout
import KLang.Proofs.Number.Text
import KLang.Proofs.Parsing.Program

/-!
# Numbers as words of a program

The text of a number is a program's way to write it: one literal, with a minus sign in front of it if
the number is negative.

* `Number.lexemes`: the words of the text.
* `Number.isSplit_chars`: the text is split into these words, at the end or in front of a semicolon.
* `Number.text_round_trip`: the words, what they evaluate to, and that the text determines the number.
-/

namespace KLang

variable {c d : Char} {cs u v gap : List Char} {ls : List Lexeme}

/-! ## Longest words -/

theorem Spells.not_mem_semicolon {r : Except LexFault Lexeme} (h : Spells (c :: cs) r)
    (hc : c.isDigit = true) : ';' ∉ c :: cs := by
  have hletter := isLetter_of_isDigit hc
  generalize hu : c :: cs = u at h
  cases h with
  | keyword k =>
    obtain ⟨d, ds, hk, hd, -⟩ := k.eq_cons_text
    rw [hk] at hu
    obtain ⟨rfl, -⟩ := List.cons.inj hu
    rw [hletter] at hd
    cases hd
  | identifier hd =>
    obtain ⟨rfl, -⟩ := List.cons.inj hu
    rw [hletter] at hd
    cases hd
  | hexadecimal h =>
    simp only [List.mem_cons, not_or]
    exact ⟨by decide, by decide, fun hmem => absurd (h.2 _ hmem) (by decide)⟩
  | decimal h => exact h.not_mem rfl (by decide)
  | string =>
    obtain ⟨rfl, -⟩ := List.cons.inj hu
    exact absurd hc (by decide)
  | symbol s =>
    obtain ⟨d, ds, hs, -, -, hd, -⟩ := s.eq_cons_chars
    rw [hs] at hu
    obtain ⟨rfl, -⟩ := List.cons.inj hu
    rw [hc] at hd
    cases hd

theorem IsNumberText.isLongestWord (h : IsNumberText u) (hv : v = [] ∨ ∃ x, v = ';' :: x) :
    IsLongestWord (u ++ v) u v
      (.ok (.number (String.ofList u) (.ofDecimal false (Numeral.decimal u)))) := by
  refine ⟨rfl, .decimal h.isDecimal, fun u' r' hu' hr' => Nat.not_lt.mp fun hlt => ?_⟩
  obtain ⟨more, rfl⟩ := List.prefix_of_prefix_length_le (List.prefix_append u v) hu' hlt.le
  obtain ⟨rest, hrest⟩ := (List.prefix_append_right_inj u).mp hu'
  cases more with
  | nil => simp at hlt
  | cons d more =>
    obtain rfl | ⟨x, rfl⟩ := hv
    · cases hrest
    obtain ⟨rfl, -⟩ := List.cons.inj hrest
    obtain ⟨c, cs, rfl, hc⟩ := h.exists_cons
    exact hr'.not_mem_semicolon hc (by simp)

theorem isLongestWord_sub (hd : d.isDigit = true) :
    IsLongestWord ('-' :: d :: cs) ['-'] (d :: cs) (.ok (.symbol .sub)) := by
  refine ⟨rfl, .symbol .sub, fun u' r' hu' hr' => Nat.not_lt.mp fun hlt => ?_⟩
  obtain ⟨rest, hrest⟩ := hu'
  match u', hlt with
  | c :: c' :: more, _ =>
    simp only [List.cons_append, List.cons.injEq] at hrest
    obtain ⟨rfl, rfl, -⟩ := hrest
    generalize hu : '-' :: c' :: more = u at hr'
    cases hr' with
    | keyword k =>
      obtain ⟨e, es, hk, he, -⟩ := k.eq_cons_text
      rw [hk] at hu
      obtain ⟨rfl, -⟩ := List.cons.inj hu
      exact absurd he (by decide)
    | identifier he =>
      obtain ⟨rfl, -⟩ := List.cons.inj hu
      exact absurd he (by decide)
    | hexadecimal => cases hu
    | decimal h =>
      obtain ⟨e, es, rfl, he⟩ := h.beginsNumber
      obtain ⟨rfl, -⟩ := List.cons.inj hu
      simp at he
    | string => cases hu
    | symbol s =>
      cases s <;> cases hu
      cases hd

namespace Number

/-! ## The words of a number -/

variable {x : Number}

/-- The words of a number: a literal, behind a minus sign if the number is negative. -/
def lexemes (x : Number) : List Lexeme :=
  (if x.negative then [.symbol .sub] else []) ++
    [.number (String.ofList x.magnitudeChars) x.abs]

/-- The text of a number is split into its words, at the end or in front of a semicolon. -/
theorem isSplit_chars (h : x.isFinite = true) (hv : v = [] ∨ ∃ w, v = ';' :: w)
    (hgap : IsGap gap (x.chars ++ v)) (more : IsSplit v ls) :
    IsSplit (gap ++ (x.chars ++ v)) (x.lexemes ++ ls) := by
  have hu := isNumberText_magnitudeChars h
  have hlongest := hu.isLongestWord hv
  rw [ofDecimal_magnitudeChars false h] at hlongest
  rw [chars_of_isFinite h] at hgap
  rw [chars_of_isFinite h, lexemes]
  cases hs : x.negative with
  | false =>
    rw [hs] at hgap
    exact .cons hgap hlongest more
  | true =>
    rw [hs] at hgap
    obtain ⟨d, ds, hcons, hd⟩ := hu.exists_cons
    have hsub : IsLongestWord (['-'] ++ (x.magnitudeChars ++ v)) ['-'] (x.magnitudeChars ++ v)
        (.ok (.symbol .sub)) := by
      rw [hcons]
      exact isLongestWord_sub hd
    have hnumber : IsSplit (x.magnitudeChars ++ v)
        (.number (String.ofList x.magnitudeChars) x.abs :: ls) := .cons (.nil _) hlongest more
    exact .cons (u := ['-']) hgap hsub hnumber

/-! ## The value of the words -/

/-- The expression of the words of a number. -/
def expr (x : Number) (l l' : Option Location) : Expr :=
  if x.negative then .unary l .neg (.number l' x.abs) else .number l x

theorem neg_abs (h : x.negative = true) : x.abs.neg = x := by
  cases x with
  | nan => cases h
  | infinite s => cases h; rfl
  | finite s => cases h; rfl

theorem abs_of_not_negative (h : x.negative = false) : x.abs = x := by
  cases x with
  | nan => rfl
  | infinite s => cases h; rfl
  | finite s => cases h; rfl

theorem isExpr_lexemes {ts : List Token} (h : ts.map (·.lexeme) = x.lexemes) :
    ∃ l l', IsExpr .plain ts (x.expr l l') := by
  unfold lexemes at h
  cases hs : x.negative with
  | false =>
    rw [hs] at h
    obtain ⟨⟨w, l⟩, rest, rfl, rfl, hrest⟩ := List.map_eq_cons_iff.mp h
    obtain rfl := List.map_eq_nil_iff.mp hrest
    refine ⟨l, l, ?_⟩
    rw [expr, hs, abs_of_not_negative hs]
    exact (Derives.number l _ x).of_primary
  | true =>
    rw [hs] at h
    obtain ⟨⟨w, l⟩, rest, rfl, rfl, hrest⟩ := List.map_eq_cons_iff.mp h
    obtain ⟨⟨w, l'⟩, rest', rfl, rfl, hrest'⟩ := List.map_eq_cons_iff.mp hrest
    obtain rfl := List.map_eq_nil_iff.mp hrest'
    have habs : Derives .plain .prefixed [⟨.number (String.ofList x.magnitudeChars) x.abs, l'⟩]
        (.number l' x.abs) := (Derives.number l' _ _).of_primary
    refine ⟨l, l', ?_⟩
    rw [expr, hs]
    exact (Derives.unary l .neg habs).loosest

theorem evalExpr_expr (world : World) (enter : Enter) (x : Number) (l l' : Option Location) :
    evalExpr world enter (x.expr l l') = pure (Value.number x) := by
  unfold expr
  cases hs : x.negative with
  | false => rfl
  | true =>
    have h : UnaryOperator.neg.apply (.number x.abs) = .ok (.number x) :=
      congrArg (fun y => Except.ok (Value.number y)) (neg_abs hs)
    change (pure (.number x.abs) >>= fun v => Eval.ofExcept l (UnaryOperator.neg.apply v)) = _
    rw [pure_bind, h]
    rfl

/-! ## A declaration with the text of a number -/

/-- The text of a declaration. -/
def declaration (name : String) (x : Number) : String := "var " ++ name ++ " = " ++ x.text ++ ";"

theorem isSplit_declaration (h : x.isFinite = true) {name : String}
    (hname : Spells name.toList (.ok (.identifier name))) :
    IsSplit (declaration name x).toList
      (.keyword (.kind .var) :: .identifier name :: .symbol .assign ::
        (x.lexemes ++ [.symbol .semicolon])) := by
  have hspace {rest : List Char} : IsGap [' '] rest := .blank rfl (.nil rest)
  have hbreak {rest : List Char} : ' ' :: rest = [] ∨ ∃ b ∈ breaks, ∃ w, ' ' :: rest = b :: w :=
    .inr ⟨' ', by decide, rest, rfl⟩
  have hsemicolon : IsSplit [';'] [.symbol .semicolon] :=
    .cons (.nil _) ((Spells.symbol .semicolon).isLongestWord (v := []) (.inl rfl)) (.nil (.nil []))
  have hnumber := isSplit_chars h (.inr ⟨[], rfl⟩) hspace hsemicolon
  have hassign := IsSplit.cons hspace ((Spells.symbol .assign).isLongestWord hbreak) hnumber
  have hidentifier := IsSplit.cons hspace (hname.isLongestWord hbreak) hassign
  have hvar := IsSplit.cons (.nil _) ((Spells.keyword (.kind .var)).isLongestWord hbreak) hidentifier
  have htext : (declaration name x).toList = "var".toList ++ ([' '] ++ (name.toList ++
      ([' '] ++ (['='] ++ ([' '] ++ (x.chars ++ [';'])))))) := by
    simp [declaration, text]
  rw [htext]
  exact hvar

theorem runText_declaration (h : x.isFinite = true) {name : String}
    (hname : Spells name.toList (.ok (.identifier name))) (i : Interpreter) (limits : Limits)
    (world : World) (location : Option Location) :
    i.runText limits world (declaration name x) location =
      .ok ⟨.done, i.letGlobal name (.number x), ∅⟩ := by
  obtain ⟨hwords, hending⟩ := Tokens.ofChars_of_isSplit (isSplit_declaration h hname) location
  obtain ⟨⟨w, l⟩, ts, hts, rfl, hwords₁⟩ := List.map_eq_cons_iff.mp hwords
  obtain ⟨⟨w, l₁⟩, ts₁, rfl, rfl, hwords₂⟩ := List.map_eq_cons_iff.mp hwords₁
  obtain ⟨⟨w, l₂⟩, ts₂, rfl, rfl, hwords₃⟩ := List.map_eq_cons_iff.mp hwords₂
  obtain ⟨us, vs, rfl, hus, hvs⟩ := List.map_eq_append_iff.mp hwords₃
  obtain ⟨⟨w, r⟩, vs', rfl, rfl, hvs'⟩ := List.map_eq_cons_iff.mp hvs
  obtain rfl := List.map_eq_nil_iff.mp hvs'
  obtain ⟨l₃, l₄, hexpr⟩ := isExpr_lexemes hus
  have hprogram : Program.ofText (declaration name x) location =
      .ok ⟨l, [.declare l .var name (x.expr l₃ l₄)]⟩ := by
    rw [Program.ofText_eq_ok]
    have hstatements := IsStatements.cons (.declare l l₁ l₂ r .var name hexpr) .nil
    rw [List.append_nil] at hstatements
    refine ⟨_, hending, ?_⟩
    rw [Tokens.ofText, hts]
    exact ⟨hstatements, rfl⟩
  rw [Interpreter.runText, hprogram]
  refine congrArg Except.ok ?_
  simp only [Interpreter.run, Interpreter.execution, execAll, execStatement, evalExpr_expr]
  rfl

/-! ## There and back -/

theorem ofText_text (h : x.isFinite = true) (location : Option Location) :
    Tokens.ofText x.text location = ⟨x.lexemes.map (⟨·, location⟩), .complete location⟩ := by
  have hsplit : IsSplit ([] ++ (x.chars ++ [])) (x.lexemes ++ []) :=
    isSplit_chars h (.inl rfl) (.nil _) (.nil (.nil []))
  rw [List.nil_append, List.append_nil, List.append_nil] at hsplit
  have hline : newlines x.chars = 0 := by
    rw [chars_of_isFinite h, newlines_append]
    have hu := (isNumberText_magnitudeChars h).isDecimal.not_mem (c := '\n') rfl (by decide)
    have hsign : newlines (if x.negative then ['-'] else []) = 0 := by
      cases x.negative <;> rfl
    rw [hsign, newlines, List.count_eq_zero.mpr hu]
  rw [Tokens.ofText, text, String.toList_ofList]
  exact Tokens.ofChars_eq_of_isSplit hsplit hline location

/-- **A number survives being written and read.** The text of a finite number consists of digits with
a point or an exponent, behind a minus sign if the number is negative. It is split into one literal
that stands for the number, or into a minus sign and a literal that stands for its magnitude. A
declaration with this text binds its variable to the number itself, the sign of a zero included. So no
two numbers have the same text. -/
theorem text_round_trip :
    (∀ x : Number, x.isFinite = true →
      (∃ u, IsNumberText u ∧ x.text = String.ofList ((if x.negative then ['-'] else []) ++ u) ∧
        ∀ location, Tokens.ofText x.text location =
          ⟨(if x.negative then [⟨.symbol .sub, location⟩] else []) ++
            [⟨.number (String.ofList u) x.abs, location⟩], .complete location⟩) ∧
      (x.negative = false → x.abs = x) ∧ (x.negative = true → x.abs.neg = x) ∧
      ∀ (i : Interpreter) (limits : Limits) (world : World) (location : Option Location)
        (name : String), Spells name.toList (.ok (.identifier name)) →
        i.runText limits world ("var " ++ name ++ " = " ++ x.text ++ ";") location =
          .ok ⟨.done, i.letGlobal name (.number x), ∅⟩) ∧
    ∀ x y : Number, x.text = y.text → x = y := by
  refine ⟨fun x h => ⟨⟨x.magnitudeChars, isNumberText_magnitudeChars h, ?_, fun location => ?_⟩,
    abs_of_not_negative, neg_abs, fun i limits world location name hname => ?_⟩, fun x y htext => ?_⟩
  · rw [text, chars_of_isFinite h]
  · rw [ofText_text h, lexemes, List.map_append]
    cases x.negative <;> rfl
  · exact runText_declaration h hname i limits world location
  · have hread := ofText?_text x
    rw [htext, ofText?_text y] at hread
    exact (Option.some.inj hread).symm

theorem text_round_trip_negative_zero : (zero true).isFinite = true ∧
    Spells "x".toList (.ok (.identifier "x")) ∧
    (∅ : Interpreter).runText .standard default "var x = -0;" none =
      .ok ⟨.done, (∅ : Interpreter).letGlobal "x" (.number (zero true)), ∅⟩ := by
  have hname : Spells "x".toList (.ok (.identifier "x")) := by
    have hword : Lexeme.ofWord (String.ofList ['x']) = .identifier "x" := by decide +kernel
    have hletter : Spells ['x'] (.ok (Lexeme.ofWord (String.ofList ['x']))) := .ofWord rfl nofun
    rwa [hword] at hletter
  exact ⟨rfl, hname, (text_round_trip.1 (zero true) rfl).2.2.2 ∅ .standard default none "x" hname⟩

end Number

end KLang
