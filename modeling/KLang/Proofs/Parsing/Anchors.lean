import KLang.Proofs.Parsing.Program
import KLang.Proofs.Parsing.Separators
import Mathlib.Data.List.Infix
import Mathlib.Logic.Relation

/-!
# The anchors of nodes

Every node of a program is formed by a range of tokens without gaps, and it stands at one of them, its
anchor. The nodes below it are formed by ranges inside of this one, which do not overlap and come in
the order of the tree; those of a left operand stand in front of the anchor and all others behind it.

* `Node`: the nodes of all sorts, with `Node.before` and `Node.after` the nodes right below.
* `Node.IsAnchor`, `Node.Lead`: the word of the anchor and what stands in front of it in the range.
* `Node.Anchored`, `Node.InOrder`: a range of tokens for a node, and for nodes in a row.
* `Derives.inOrder`, `IsStatement.anchored`: what the grammar derives has such ranges.
* `Program.nodes_at_anchors`: all nodes of a program that is read stand at their anchors.
-/

namespace KLang

/-! ## Nodes -/

/-- A node of a program. An arm comes with the keyword in front of it. -/
inductive Node where
  | expr (e : Expr)
  | statement (s : Statement)
  | block (b : Block)
  | arm (word : Keyword) (a : Arm)
  | parameter (p : Parameter)

namespace Node

/-- The location of a node. -/
def location : Node → Option Location
  | expr e => e.location
  | statement s => s.location
  | block b => b.location
  | arm _ a => a.location
  | parameter p => p.location

/-- The words that the node is known by. -/
def IsAnchor : Node → Lexeme → Prop
  | expr (.number _ x), w => ∃ spelling, w = .number spelling x
  | expr (.string _ text), w => w = .string text
  | expr (.variable _ ⟨none, name⟩), w => w = .identifier name
  | expr (.variable _ ⟨some _, _⟩), w => w = .symbol .dot
  | expr (.unary _ op _), w => w = op.word
  | expr (.binary _ op _ _), w => w = op.word
  | expr (.step _ op _), w => w = op.word
  | expr (.call ..), w => w = .symbol .lparen
  | statement (.declare _ kind _ _), w => w = .keyword (.kind kind)
  | statement (.assign ..), w => ∃ name, w = .identifier name
  | statement (.print ..), w => w = .keyword .printWord
  | statement (.branch ..), w => w = .keyword .ifWord
  | statement (.loop ..), w => w = .keyword .whileWord
  | statement (.define ..), w => w = .keyword .funWord
  | statement (.returnValue ..), w => w = .keyword .returnWord
  | statement (.importModule ..), w => w = .keyword .importWord
  | statement (.evaluate ..), w => ∃ name, w = .identifier name
  | block _, w => w = .symbol .lbrace
  | arm word _, w => w = .keyword word
  | parameter p, w => w = .keyword (.kind p.kind)

/-- What stands in front of the anchor: the left operand, the name that is called or stepped, the
module of a member, and nothing for all other nodes. -/
def Lead : Node → List Token → Prop
  | expr (.binary _ _ left _), v => IsExpr .plain v left
  | expr (.call _ callee _), v => ∃ l, IsExpr .plain v (.variable l callee)
  | expr (.variable _ ⟨some module, _⟩), v => ∃ l, IsExpr .plain v (.variable l ⟨none, module⟩)
  | expr (.step _ _ name), v => ∃ l, IsExpr .plain v (.variable l ⟨none, name⟩)
  | _, v => v = []

/-- The tokens form the node. -/
def FormedBy : Node → List Token → Prop
  | expr e, u => IsExpr .plain u e
  | statement s, u => IsStatement u s
  | block b, u => IsBlock u b
  | arm word a, u => ∃ v, u = ⟨.keyword word, a.location⟩ :: v ∧ IsArm a.location v a
  | parameter p, u => IsParameter u p

/-- The arms of a branch, of which the first one is behind `if`. -/
def arms : List Arm → List Node
  | [] => []
  | a :: as => arm .ifWord a :: as.map (arm .elifWord)

/-- The nodes right below that stand in front of the anchor. -/
def before : Node → List Node
  | expr (.binary _ _ left _) => [expr left]
  | _ => []

/-- The nodes right below that stand behind the anchor, in order. -/
def after : Node → List Node
  | expr (.unary _ _ operand) => [expr operand]
  | expr (.binary _ _ _ right) => [expr right]
  | expr (.call _ _ arguments) => arguments.map expr
  | expr _ => []
  | statement (.declare _ _ _ value) => [expr value]
  | statement (.assign _ l target value) => [expr (.variable l target), expr value]
  | statement (.print _ items) => items.map expr
  | statement (.branch _ as otherwise) => arms as ++ otherwise.toList.map block
  | statement (.loop _ condition body) => [expr condition, block body]
  | statement (.define _ f) => f.parameters.map parameter ++ [block f.body]
  | statement (.returnValue _ value) => value.toList.map expr
  | statement (.importModule ..) => []
  | statement (.evaluate _ value) => [expr value]
  | block b => b.statements.map statement
  | arm _ a => [expr a.condition, block a.body]
  | parameter _ => []

/-- Whether the anchor is the first token of the first node right below too. -/
def sharesAnchor : Node → Bool
  | statement (.assign ..) | statement (.branch ..) | statement (.evaluate ..) => true
  | _ => false

/-- The node is the other one or somewhere below it. -/
def Within (m n : Node) : Prop := Relation.ReflTransGen (fun n m => m ∈ n.before ++ n.after) n m

/-! ## Ranges of tokens -/

mutual

/-- The tokens are the range of the node: they form it, one of them is its anchor, and the nodes right
below have ranges in front of the anchor and behind it. -/
inductive Anchored : Node → List Token → Prop
  | mk {n : Node} {v w : List Token} {t : Token} (formed : n.FormedBy (v ++ t :: w))
      (anchor : n.IsAnchor t.lexeme) (location : t.location = n.location) (lead : n.Lead v)
      (before : InOrder n.before v)
      (after : InOrder n.after (if n.sharesAnchor then t :: w else w)) : Anchored n (v ++ t :: w)

/-- The nodes have ranges in the tokens, one behind the other. -/
inductive InOrder : List Node → List Token → Prop
  | nil (u : List Token) : InOrder [] u
  | cons {n : Node} {ns : List Node} {v w : List Token} (u : List Token) (h : Anchored n v)
      (more : InOrder ns w) : InOrder (n :: ns) (u ++ (v ++ w))

end

theorem Anchored.first {n : Node} {w : List Token} {t : Token} (formed : n.FormedBy (t :: w))
    (anchor : n.IsAnchor t.lexeme) (location : t.location = n.location) (lead : n.Lead [])
    (before : n.before = []) (after : InOrder n.after (if n.sharesAnchor then t :: w else w)) :
    Anchored n (t :: w) :=
  Anchored.mk (v := []) formed anchor location lead (before ▸ .nil []) after

namespace InOrder

variable {ns ms : List Node} {n : Node} {u v : List Token}

theorem behind (u : List Token) (h : InOrder ns v) : InOrder ns (u ++ v) := by
  cases h with
  | nil => exact .nil _
  | cons u' h more =>
    rw [← List.append_assoc]
    exact .cons _ h more

theorem append {ns : List Node} {u : List Token} (h : InOrder ns u) (h' : InOrder ms v) :
    InOrder (ns ++ ms) (u ++ v) := by
  match h with
  | .nil u => exact h'.behind u
  | .cons u h more =>
    rw [List.append_assoc, List.append_assoc]
    exact .cons u h (more.append h')

theorem inFrontOf (h : InOrder ns u) (v : List Token) : InOrder ns (u ++ v) := by
  simpa using h.append (.nil v)

theorem word (t : Token) (h : InOrder ns v) : InOrder ns (t :: v) := h.behind [t]

theorem enclosed (t t' : Token) (h : InOrder ns v) : InOrder ns (t :: (v ++ [t'])) :=
  (h.inFrontOf [t']).word t

theorem single (h : Anchored n u) : InOrder [n] u := by
  simpa using InOrder.cons [] h (.nil [])

theorem exists_infix {ns : List Node} {u : List Token} (h : InOrder ns u) (hn : n ∈ ns) :
    ∃ v, v <:+: u ∧ Anchored n v := by
  match h with
  | .nil u => cases hn
  | @InOrder.cons _ _ v w u h more =>
    rcases List.mem_cons.mp hn with rfl | hn
    · exact ⟨v, ⟨u, w, List.append_assoc u v w⟩, h⟩
    · obtain ⟨v', hv', h'⟩ := more.exists_infix hn
      refine ⟨v', hv'.trans ?_, h'⟩
      exact ((List.suffix_append v w).trans (List.suffix_append u _)).isInfix

end InOrder

theorem Anchored.exists_infix {m n : Node} {u : List Token} (h : Anchored n u) (hm : m.Within n) :
    ∃ v, v <:+: u ∧ Anchored m v := by
  induction hm with
  | refl => exact ⟨u, List.infix_refl u, h⟩
  | tail _ hbelow ih =>
    obtain ⟨_, hinfix, h⟩ := ih
    obtain @⟨_, v, w, t, -, -, -, -, hbefore, hafter⟩ := h
    rcases List.mem_append.mp hbelow with hm | hm
    · obtain ⟨v', hv', h'⟩ := hbefore.exists_infix hm
      exact ⟨v', (hv'.trans (List.prefix_append v _).isInfix).trans hinfix, h'⟩
    · obtain ⟨v', hv', h'⟩ := hafter.exists_infix hm
      refine ⟨v', (hv'.trans (List.IsInfix.trans ?_ (List.suffix_append v _).isInfix)).trans hinfix, h'⟩
      split
      · exact List.infix_refl _
      · exact (List.suffix_cons t w).isInfix

end Node

open Node (InOrder)

/-! ## Lists with separators -/

section Lists

variable {α : Type} {separator : Symbol} (node : α → Node) {pieces : List (List Token × α)}
  {v : List Token}

theorem Behind.inOrder (h : Behind separator (pieces.map Prod.fst) v)
    (hpieces : ∀ p ∈ pieces, InOrder [node p.2] p.1) :
    InOrder ((pieces.map Prod.snd).map node) v := by
  induction pieces generalizing v with
  | nil =>
    cases h
    exact .nil []
  | cons p pieces ih =>
    obtain ⟨hp, hpieces⟩ := List.forall_mem_cons.mp hpieces
    cases h with
    | cons l more => exact (hp.append (ih more hpieces)).word _

theorem Separated.inOrder (h : Separated separator (pieces.map Prod.fst) v)
    (hpieces : ∀ p ∈ pieces, InOrder [node p.2] p.1) :
    InOrder ((pieces.map Prod.snd).map node) v := by
  cases pieces with
  | nil =>
    cases h
    exact .nil []
  | cons p pieces =>
    obtain ⟨hp, hpieces⟩ := List.forall_mem_cons.mp hpieces
    cases h with
    | cons more => exact hp.append (more.inOrder node hpieces)

theorem IsList.inOrder {IsPiece : List Token → α → Prop} {as : List α}
    (h : IsList separator IsPiece v as) (hpiece : ∀ u a, IsPiece u a → InOrder [node a] u) :
    InOrder (as.map node) v := by
  obtain ⟨pieces, hseparated, hpieces, rfl⟩ := h
  exact hseparated.inOrder node fun p hp => hpiece p.1 p.2 (hpieces p hp)

end Lists

/-! ## Expressions -/

theorem Derives.isExpr {mode : Mode} {s : Stratum} {u : List Token} {e : Expr}
    (h : Derives mode s u e) : IsExpr .plain u e :=
  Derives.of_le (s := s) (h.in_mode fun hmode => nomatch hmode) (Nat.zero_le _)

/-- The tokens of an expression have a range for it. Parentheses around it do not belong to it. -/
theorem Derives.inOrder {mode : Mode} {s : Stratum} {u : List Token} {e : Expr}
    (h : Derives mode s u e) : InOrder [.expr e] u := by
  induction h with
  | next _ ih => exact ih
  | binary l hop hadmits hleft hright ihleft ihright =>
    exact .single (.mk (Derives.binary l hop hadmits hleft hright).isExpr rfl rfl hleft.isExpr
      ihleft ihright)
  | power l hbase hexponent ihbase ihexponent =>
    exact .single (.mk (Derives.power l hbase hexponent).isExpr rfl rfl hbase.isExpr
      ihbase ihexponent)
  | unary l op hoperand ih =>
    exact .single (.first (Derives.unary l op hoperand).isExpr rfl rfl rfl rfl ih)
  | call l r hcallee separated harguments _ ih =>
    exact .single (.mk (Derives.call l r hcallee separated harguments).isExpr rfl rfl
      ⟨_, hcallee.isExpr⟩ (.nil _) ((separated.inOrder .expr ih).inFrontOf _))
  | member l r name hmodule _ =>
    exact .single (.mk (Derives.member l r name hmodule).isExpr rfl rfl ⟨_, hmodule.isExpr⟩
      (.nil _) (.nil _))
  | step l op hname _ =>
    exact .single (.mk (Derives.step l op hname).isExpr rfl rfl ⟨_, hname.isExpr⟩ (.nil _) (.nil _))
  | @number mode l spelling value =>
    exact .single (.first (@Derives.number mode l spelling value).isExpr ⟨_, rfl⟩ rfl rfl rfl
      (.nil _))
  | @string mode l text =>
    exact .single (.first (@Derives.string mode l text).isExpr rfl rfl rfl rfl (.nil _))
  | @name mode l name =>
    exact .single (.first (@Derives.name mode l name).isExpr rfl rfl rfl rfl (.nil _))
  | grouped l r _ ih => exact ih.enclosed _ _

/-! ## Statements -/

theorem IsCondition.inOrder {u : List Token} {e : Expr} (h : IsCondition u e) :
    InOrder [.expr e] u := by
  obtain ⟨l, r, h⟩ := h
  exact h.inOrder.enclosed _ _

theorem IsParameter.inOrder {u : List Token} {p : Parameter} (h : IsParameter u p) :
    InOrder [.parameter p] u := by
  have hformed := h
  cases h
  exact .single (.first hformed rfl rfl rfl rfl (.nil _))

theorem IsHeader.inOrder {u : List Token} {kind : Kind} {name : String} {ps : List Parameter}
    (h : IsHeader u (kind, name, ps)) : InOrder (ps.map .parameter) u := by
  cases h with
  | mk l l' r name hkind hparameters =>
    have hps := hparameters.1.inOrder Node.parameter fun _ _ => IsParameter.inOrder
    exact ((hps.enclosed _ _).word _).behind _

mutual

/-- The tokens of a statement are its range. -/
theorem IsStatement.anchored {u : List Token} {s : Statement} (h : IsStatement u s) :
    (Node.statement s).Anchored u := by
  match h with
  | .declare l l₁ l₂ r kind name h' =>
    exact .first (IsStatement.declare l l₁ l₂ r kind name h') rfl rfl rfl rfl
      ((h'.inOrder.enclosed _ _).word _)
  | .print l l₁ r r₁ h' =>
    have hitems := h'.inOrder Node.expr fun _ _ => Derives.inOrder
    exact .first (IsStatement.print l l₁ r r₁ h') rfl rfl rfl rfl ((hitems.inFrontOf _).word _)
  | .branch l harm harms hotherwise =>
    have hbelow := (InOrder.single (harm.anchored .ifWord)).append
      (harms.inOrder.append hotherwise.inOrder)
    exact .first (IsStatement.branch l harm harms hotherwise) rfl rfl rfl rfl hbelow
  | .loop l hcondition hbody =>
    exact .first (IsStatement.loop l hcondition hbody) rfl rfl rfl rfl
      (hcondition.inOrder.append (.single hbody.anchored))
  | .define l hheader hbody =>
    exact .first (IsStatement.define l hheader hbody) rfl rfl rfl rfl
      (hheader.inOrder.append (.single hbody.anchored))
  | .returnNothing l r => exact .first (IsStatement.returnNothing l r) rfl rfl rfl rfl (.nil _)
  | .returnValue l r h' =>
    exact .first (IsStatement.returnValue l r h') rfl rfl rfl rfl (h'.inOrder.inFrontOf _)
  | .importModule l l₁ r name =>
    exact .first (IsStatement.importModule l l₁ r name) rfl rfl rfl rfl (.nil _)
  | .evaluate l r name h' =>
    exact .first (IsStatement.evaluate l r name h') ⟨name, rfl⟩ rfl rfl rfl (h'.inOrder.inFrontOf _)
  | .assign l l₁ r name htarget hvalue =>
    have hbelow := htarget.inOrder.append
      (hvalue.inOrder.enclosed ⟨.symbol .assign, l₁⟩ ⟨.symbol .semicolon, r⟩)
    exact .first (IsStatement.assign l l₁ r name htarget hvalue) ⟨name, rfl⟩ rfl rfl rfl hbelow

theorem IsArm.anchored {l : Option Location} {u : List Token} {a : Arm} (h : IsArm l u a)
    (word : Keyword) : (Node.arm word a).Anchored (⟨.keyword word, l⟩ :: u) := by
  match h with
  | .mk l hcondition hbody =>
    exact .first ⟨_, rfl, IsArm.mk l hcondition hbody⟩ rfl rfl rfl rfl
      (hcondition.inOrder.append (.single hbody.anchored))

theorem IsArms.inOrder {u : List Token} {as : List Arm} (h : IsArms u as) :
    InOrder (as.map (.arm .elifWord)) u := by
  match h with
  | .nil => exact .nil []
  | .cons l harm harms => exact (InOrder.single (harm.anchored .elifWord)).append harms.inOrder

theorem IsElse.inOrder {u : List Token} {otherwise : Option Block} (h : IsElse u otherwise) :
    InOrder (otherwise.toList.map .block) u := by
  match h with
  | .absent => exact .nil []
  | .given l h => exact (InOrder.single h.anchored).word _

theorem IsBlock.anchored {u : List Token} {b : Block} (h : IsBlock u b) :
    (Node.block b).Anchored u := by
  match h with
  | .mk l r h =>
    exact .first (IsBlock.mk l r h) rfl rfl rfl rfl (h.inOrder.inFrontOf _)

theorem IsStatements.inOrder {u : List Token} {ss : List Statement} (h : IsStatements u ss) :
    InOrder (ss.map .statement) u := by
  match h with
  | .nil => exact .nil []
  | .cons h more => exact (InOrder.single h.anchored).append more.inOrder

end

/-! ## Programs -/

theorem IsStatements.exists_pieces {u : List Token} {ss : List Statement} (h : IsStatements u ss) :
    ∃ pieces : List (List Token), u = pieces.flatten ∧
      List.Forall₂ (fun s v => (Node.statement s).Anchored v) ss pieces := by
  match h with
  | .nil => exact ⟨[], rfl, .nil⟩
  | @IsStatements.cons u v s ss h more =>
    obtain ⟨pieces, hv, hpieces⟩ := more.exists_pieces
    exact ⟨u :: pieces, by rw [hv, List.flatten_cons], .cons h.anchored hpieces⟩

/-- **All nodes of a program stand at their anchors.** The words of a text that is read are the ranges
of its statements, one behind the other, and each of them contains the ranges of the nodes below: each
node stands at the anchor in its range, the nodes of a left operand in front of it and all others
behind it, without overlaps and in the order of the tree. The program stands at its first word, or at
the end of the text if it has none. -/
theorem Program.nodes_at_anchors {source : String} {location : Option Location} {program : Program}
    (h : Program.ofText source location = .ok program) :
    ∃ eof pieces, (Tokens.ofText source location).ending = .complete eof ∧
      program.location = frontLocation eof (Tokens.ofText source location).words ∧
      (Tokens.ofText source location).words = pieces.flatten ∧
      List.Forall₂ (fun s u => (Node.statement s).Anchored u) program.statements pieces ∧
      ∀ s ∈ program.statements, ∀ n : Node, n.Within (.statement s) →
        ∃ u, u <:+: (Tokens.ofText source location).words ∧ n.Anchored u := by
  obtain ⟨eof, hending, hstatements, hlocation⟩ := Program.ofText_eq_ok.mp h
  obtain ⟨pieces, hwords, hpieces⟩ := hstatements.exists_pieces
  refine ⟨eof, pieces, hending, hlocation, hwords, hpieces, fun s hs n hn => ?_⟩
  obtain ⟨u, hu, hanchored⟩ := hstatements.inOrder.exists_infix (List.mem_map_of_mem hs)
  obtain ⟨v, hv, hbelow⟩ := hanchored.exists_infix hn
  exact ⟨v, hv.trans hu, hbelow⟩

/-- An operator on the line behind its statement. -/
theorem Program.nodes_at_anchors_next_line :
    let a : Expr := .variable (some ⟨none, 1⟩) ⟨none, "a"⟩
    let b : Expr := .variable (some ⟨none, 2⟩) ⟨none, "b"⟩
    let sum : Expr := .binary (some ⟨none, 2⟩) .add a b
    Program.ofText "a\n+b;" (some ⟨none, 1⟩) =
        .ok ⟨some ⟨none, 1⟩, [.evaluate (some ⟨none, 1⟩) sum]⟩ ∧
      ∃ u, u <:+: (Tokens.ofText "a\n+b;" (some ⟨none, 1⟩)).words ∧ (Node.expr sum).Anchored u := by
  intro a b sum
  have hending : (Tokens.ofText "a\n+b;" (some ⟨none, 1⟩)).ending = .complete (some ⟨none, 2⟩) := by
    decide +kernel
  have hwords : (Tokens.ofText "a\n+b;" (some ⟨none, 1⟩)).words =
      [⟨.identifier "a", some ⟨none, 1⟩⟩, ⟨.symbol .add, some ⟨none, 2⟩⟩,
        ⟨.identifier "b", some ⟨none, 2⟩⟩, ⟨.symbol .semicolon, some ⟨none, 2⟩⟩] := by decide +kernel
  have hname (l : Option Location) (name : String) (s : Stratum) :
      Derives .plain s [⟨.identifier name, l⟩] (.variable l ⟨none, name⟩) :=
    (Derives.name l name).of_primary
  have hsum : IsExpr .plain [⟨.identifier "a", some ⟨none, 1⟩⟩, ⟨.symbol .add, some ⟨none, 2⟩⟩,
      ⟨.identifier "b", some ⟨none, 2⟩⟩] sum :=
    (@Derives.binary .plain .add _ _ _ _ (some ⟨none, 2⟩) nofun (.inl rfl) (hname _ "a" _)
      (hname _ "b" _)).isExpr
  have hprogram : Program.ofText "a\n+b;" (some ⟨none, 1⟩) =
      .ok ⟨some ⟨none, 1⟩, [.evaluate (some ⟨none, 1⟩) sum]⟩ := by
    refine Program.ofText_eq_ok.mpr ⟨_, hending, ?_⟩
    rw [hwords]
    exact ⟨.cons (.evaluate _ (some ⟨none, 2⟩) "a" hsum) .nil, rfl⟩
  obtain ⟨-, -, -, -, -, -, hnodes⟩ := Program.nodes_at_anchors hprogram
  exact ⟨hprogram, hnodes _ (List.mem_singleton_self _) _ (.single (List.mem_singleton_self _))⟩

end KLang
