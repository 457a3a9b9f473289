import KLang.Proofs.Machine.Simulation

/-!
# Which body the machine works on

The code that the machine has in its hands belongs to the body of the innermost activation, and what
each frame holds belongs to the body of the activation below it.

* `HasStatement`, `HasExpr`: the statements and expressions of a body. A function that is declared
  there has a body of its own.
* `owner`: the body of the innermost activation, or the program.
* `Config.Coherent`: the code belongs there, and `Config.coherent_of_leads`: it always does.
* `Config.step_error`: an error that comes up stands at a node of that body.
-/

namespace KLang

/-! ## The code of a body -/

/-- The statements of a body, those in the blocks of its branches and loops included. -/
inductive HasStatement (b : List Statement) : Statement → Prop
  | here {t : Statement} (h : t ∈ b) : HasStatement b t
  | arm {l : Option Location} {arms : List Arm} {otherwise : Option Block} {arm : Arm}
      {t : Statement} (h : HasStatement b (.branch l arms otherwise)) (harm : arm ∈ arms)
      (ht : t ∈ arm.body.statements) : HasStatement b t
  | otherwise {l : Option Location} {arms : List Arm} {block : Block} {t : Statement}
      (h : HasStatement b (.branch l arms (some block))) (ht : t ∈ block.statements) :
      HasStatement b t
  | loop {l : Option Location} {condition : Expr} {body : Block} {t : Statement}
      (h : HasStatement b (.loop l condition body)) (ht : t ∈ body.statements) : HasStatement b t

/-- The expressions of a body. -/
inductive HasExpr (b : List Statement) : Expr → Prop
  | declare {l : Option Location} {kind : Kind} {name : String} {e : Expr}
      (h : HasStatement b (.declare l kind name e)) : HasExpr b e
  | assign {l l' : Option Location} {target : Name} {e : Expr}
      (h : HasStatement b (.assign l l' target e)) : HasExpr b e
  | print {l : Option Location} {items : List Expr} {e : Expr}
      (h : HasStatement b (.print l items)) (he : e ∈ items) : HasExpr b e
  | arm {l : Option Location} {arms : List Arm} {otherwise : Option Block} {arm : Arm}
      (h : HasStatement b (.branch l arms otherwise)) (harm : arm ∈ arms) :
      HasExpr b arm.condition
  | loop {l : Option Location} {condition : Expr} {body : Block}
      (h : HasStatement b (.loop l condition body)) : HasExpr b condition
  | result {l : Option Location} {e : Expr} (h : HasStatement b (.returnValue l (some e))) :
      HasExpr b e
  | evaluate {l : Option Location} {e : Expr} (h : HasStatement b (.evaluate l e)) : HasExpr b e
  | operand {l : Option Location} {op : UnaryOperator} {e : Expr}
      (h : HasExpr b (.unary l op e)) : HasExpr b e
  | first {l : Option Location} {op : BinaryOperator} {e e' : Expr}
      (h : HasExpr b (.binary l op e e')) : HasExpr b e
  | second {l : Option Location} {op : BinaryOperator} {e e' : Expr}
      (h : HasExpr b (.binary l op e e')) : HasExpr b e'
  | argument {l : Option Location} {name : Name} {es : List Expr} {e : Expr}
      (h : HasExpr b (.call l name es)) (he : e ∈ es) : HasExpr b e

/-- A statement or an expression of a body stands at the location. -/
inductive HasNode (b : List Statement) : Option Location → Prop
  | statement {t : Statement} (h : HasStatement b t) : HasNode b t.location
  | expr {e : Expr} (h : HasExpr b e) : HasNode b e.location

/-- A call of a body stands at the location. -/
def HasCall (b : List Statement) (l : Option Location) : Prop :=
  ∃ name es, HasExpr b (.call l name es)

theorem HasCall.node {b : List Statement} {l : Option Location} (h : HasCall b l) :
    HasNode b l := by
  obtain ⟨name, es, h⟩ := h
  exact .expr h

/-- The statements of a block belong to a body. -/
def HasBlock (b : List Statement) (block : Block) : Prop :=
  ∀ t ∈ block.statements, HasStatement b t

/-- What is left of a branch belongs to a body. -/
def HasArms (b : List Statement) (arms : List Arm) (otherwise : Option Block) : Prop :=
  (∀ arm ∈ arms, HasExpr b arm.condition ∧ HasBlock b arm.body) ∧
    ∀ block ∈ otherwise, HasBlock b block

/-- The body of the innermost activation, or else the program. -/
def owner (program : List Statement) : List Frame → List Statement
  | [] => program
  | .activation _ f _ :: _ => f.body.statements
  | _ :: k => owner program k

theorem owner_cons (program : List Statement) {F : Frame} (h : activations [F] = [])
    (k : List Frame) : owner program (F :: k) = owner program k := by
  cases F <;> first | rfl | exact nomatch h

/-! ## The code of a machine -/

variable (b : List Statement)

/-- What the machine is to do belongs to a body. -/
def Control.In : Control → Prop
  | .expr e => HasExpr b e
  | .callee l _ es => ∃ name, HasExpr b (.call l name es)
  | .all _ es | .arguments _ es _ => ∀ e ∈ es, HasExpr b e
  | .statement t => HasStatement b t
  | .statements ss | .block ss => ∀ t ∈ ss, HasStatement b t
  | .arms rest otherwise => HasArms b rest otherwise
  | .rounds condition body _ => HasExpr b condition ∧ HasBlock b body
  | .value _ | .values _ | .bindings _ | .flow _ | .stop _ => True

/-- What a frame is to go on with belongs to a body, and so do the nodes that it speaks for. -/
def Frame.In : Frame → Prop
  | .unary l _ | .second l _ _ | .builtin l _ | .declare l _ _ | .assign l _ => HasNode b l
  | .first l _ e => HasNode b l ∧ HasExpr b e
  | .element _ es => ∀ e ∈ es, HasExpr b e
  | .argument l _ _ es _ => HasNode b l ∧ ∀ e ∈ es, HasExpr b e
  | .call l _ | .activation l _ _ => HasCall b l
  | .print | .result | .discard | .body _ => True
  | .arm block rest otherwise => HasBlock b block ∧ HasArms b rest otherwise
  | .test condition block _ | .again condition block _ => HasExpr b condition ∧ HasBlock b block
  | .behind ss => ∀ t ∈ ss, HasStatement b t

/-- What a move leads to belongs to a body, and no other body is begun. -/
structure Move.In (move : Move) : Prop where
  control : move.control.In b
  frames : ∀ F ∈ move.frames, F.In b ∧ activations [F] = []

variable {b}

theorem Control.In.of_begin {limits : Limits} {c : Control} {s : State}
    (h : c.begin limits s = none) : c.In b := by
  revert h
  fun_cases Control.begin limits s c <;> simp [Control.In]

theorem Move.In.perform {α : Type} {x : Eval α} {give : α → Control} {s : State}
    (h : ∀ a, (give a).In b) : (perform x give s).In b := by
  unfold KLang.perform
  cases x.run s with
  | ok a s' => exact ⟨h a, by simp⟩
  | error why s' => exact ⟨trivial, by simp⟩

theorem Move.In.pass {c : Control} {s : State} (h : c.In b) : Move.In b ⟨c, [], s⟩ :=
  ⟨h, by simp⟩

theorem Move.In.push {c : Control} {F : Frame} {s : State} (h : c.In b) (hF : F.In b)
    (hbody : activations [F] = []) : Move.In b ⟨c, [F], s⟩ :=
  ⟨h, by simpa using ⟨hF, hbody⟩⟩

theorem Expr.begin_in {e : Expr} (h : HasExpr b e) (s : State) : (e.begin s).In b := by
  match e, h with
  | .number l x, _ => exact .pass trivial
  | .string l text, _ => exact .pass trivial
  | .variable l name, _ => exact .perform fun _ => trivial
  | .unary l op e, h => exact .push (.operand h) (.expr h) rfl
  | .binary l op e e', h => exact .push (.first h) ⟨.expr h, .second h⟩ rfl
  | .step l op name, _ => exact .perform fun _ => trivial
  | .call l name es, h => exact .perform fun _ => ⟨name, h⟩

theorem Statement.begin_in (limits : Limits) {t : Statement} (h : HasStatement b t) (s : State) :
    (t.begin limits s).In b := by
  cases t with
  | declare l kind name value => exact .push (.declare h) (.statement h) rfl
  | assign l l' target value => exact .push (.assign h) (.statement h) rfl
  | print l items => exact .push (fun e he => .print h he) trivial rfl
  | branch l arms otherwise =>
    refine .pass ⟨fun arm harm => ⟨.arm h harm, fun t ht => .arm h harm ht⟩, ?_⟩
    rintro block rfl t ht
    exact .otherwise h ht
  | loop l condition body => exact .pass ⟨.loop h, fun t ht => .loop h ht⟩
  | define l f => exact .pass trivial
  | returnValue l value =>
    cases value with
    | none => exact .pass trivial
    | some e => exact .push (.result h) trivial rfl
  | importModule l name => exact .perform fun _ => trivial
  | evaluate l value => exact .push (.evaluate h) trivial rfl

theorem Control.begin_in (limits : Limits) {c : Control} {s : State} {move : Move}
    (h : c.begin limits s = some move) (hc : c.In b) : move.In b := by
  cases c with
  | expr e =>
    obtain rfl := Option.some.inj h
    exact e.begin_in hc s
  | callee l callee es =>
    obtain ⟨name, hcall⟩ := hc
    have hes (e : Expr) (he : e ∈ es) : HasExpr b e := .argument hcall he
    cases callee with
    | builtin builtin =>
      obtain rfl := Option.some.inj h
      exact .push hes (.expr hcall) rfl
    | function f =>
      simp only [begin] at h
      split at h <;> obtain rfl := Option.some.inj h
      · exact .perform fun _ => trivial
      · exact .push hes ⟨name, es, hcall⟩ rfl
  | all done es =>
    cases es <;> obtain rfl := Option.some.inj h
    · exact .pass trivial
    · obtain ⟨he, hes⟩ := List.forall_mem_cons.mp hc
      exact .push he hes rfl
  | arguments ps es bound =>
    cases ps <;> cases es <;> obtain rfl := Option.some.inj h
    case cons.cons =>
      obtain ⟨he, hes⟩ := List.forall_mem_cons.mp hc
      exact .push he ⟨.expr he, hes⟩ rfl
    all_goals exact .pass trivial
  | statement t =>
    obtain rfl := Option.some.inj h
    exact t.begin_in limits hc s
  | statements ss =>
    cases ss <;> obtain rfl := Option.some.inj h
    · exact .pass trivial
    · obtain ⟨ht, hss⟩ := List.forall_mem_cons.mp hc
      exact .push ht hss rfl
  | block ss =>
    obtain rfl := Option.some.inj h
    exact .push hc trivial rfl
  | arms arms otherwise =>
    obtain ⟨harms, hotherwise⟩ := hc
    cases arms with
    | nil =>
      cases otherwise <;> obtain rfl := Option.some.inj h
      · exact .pass trivial
      · exact .pass (hotherwise _ rfl)
    | cons arm arms =>
      obtain rfl := Option.some.inj h
      obtain ⟨⟨hcondition, hblock⟩, harms⟩ := List.forall_mem_cons.mp harms
      exact .push hcondition ⟨hblock, harms, hotherwise⟩ rfl
  | rounds condition body n =>
    cases n <;> obtain rfl := Option.some.inj h
    · exact .pass trivial
    · exact .push hc.1 hc rfl
  | value | values | bindings | flow | stop => exact nomatch h

theorem Frame.resume_in (limits : Limits) (world : World) {F : Frame} (depth : Nat) (s : State)
    {c : Control} (hc : c.In b) (hF : F.In b) :
    (F.resume limits world depth s c).In b ∨ ∃ l f bound, F = .call l f ∧ c = .bindings bound ∧
      F.resume limits world depth s c = ⟨.statements f.body.statements,
        [.activation l f s.locals], s.inside (some bound)⟩ := by
  cases F with
  | first l op e =>
    left
    cases c with
    | value v => exact .push hF.2 hF.1 rfl
    | _ => exact .pass hc
  | element done es =>
    left
    cases c with
    | value v => exact .pass hF
    | _ => exact .pass hc
  | argument l p ps es bound =>
    left
    cases c with
    | value v => exact .perform fun _ => hF.2
    | _ => exact .pass hc
  | call l f =>
    cases c with
    | bindings bound =>
      simp only [resume]
      split
      · exact .inr ⟨l, f, bound, rfl, rfl, rfl⟩
      · exact .inl (.pass trivial)
    | _ => exact .inl (.pass hc)
  | arm block rest otherwise =>
    left
    cases c with
    | value v =>
      simp only [resume]
      split
      · exact .pass hF.1
      · exact .pass hF.2
    | _ => exact .pass hc
  | test condition block n =>
    left
    cases c with
    | value v =>
      simp only [resume]
      split
      · exact .push hF.2 hF rfl
      · exact .pass trivial
    | _ => exact .pass hc
  | again condition block n =>
    left
    cases c with
    | flow flow =>
      cases flow with
      | next => exact .pass hF
      | returned v => exact .pass trivial
    | _ => exact .pass hc
  | behind ss =>
    left
    cases c with
    | flow flow =>
      cases flow with
      | next => exact .pass hF
      | returned v => exact .pass trivial
    | _ => exact .pass hc
  | _ =>
    -- the other frames go on with an outcome
    left
    cases c <;> first | exact .pass trivial | exact .pass hc | exact .perform fun _ => trivial

/-! ## The code of a configuration -/

/-- A property of all frames and of what is below them. -/
def StackAll (P : Frame → List Frame → Prop) : List Frame → Prop
  | [] => True
  | F :: k => P F k ∧ StackAll P k

theorem StackAll.append {P : Frame → List Frame → Prop} {fs k : List Frame}
    (hfs : ∀ F ∈ fs, ∀ k, P F k) (hk : StackAll P k) : StackAll P (fs ++ k) := by
  induction fs with
  | nil => exact hk
  | cons F fs ih =>
    obtain ⟨hF, hfs⟩ := List.forall_mem_cons.mp hfs
    exact ⟨hF (fs ++ k), ih hfs⟩

theorem StackAll.of_append {P : Frame → List Frame → Prop} {fs k : List Frame}
    (h : StackAll P (fs ++ k)) : StackAll P k := by
  induction fs with
  | nil => exact h
  | cons F fs ih => exact ih h.2

/-- What each frame holds belongs to the body of the activation below it. -/
abbrev StackIn (program : List Statement) : List Frame → Prop :=
  StackAll fun F k => F.In (owner program k)

namespace Config

/-- All code that the machine has in its hands belongs where it stands. -/
structure Coherent (program : List Statement) (m : Config) : Prop where
  control : m.control.In (owner program m.frames)
  frames : StackIn program m.frames

variable {program : List Statement}

theorem Coherent.of_move {move : Move} {k : List Frame} (hmove : move.In (owner program k))
    (hk : StackIn program k) : Coherent program (move.on k) := by
  obtain ⟨c, fs, s⟩ := move
  obtain ⟨hc, hfs⟩ := hmove
  have hstack : owner program (fs ++ k) = owner program k ∧ StackIn program (fs ++ k) := by
    clear hc
    induction fs with
    | nil => exact ⟨rfl, hk⟩
    | cons F fs ih =>
      obtain ⟨⟨hF, hbody⟩, hfs⟩ := List.forall_mem_cons.mp hfs
      obtain ⟨howner, hstack⟩ := ih hfs
      rw [List.cons_append, owner_cons program hbody]
      refine ⟨howner, ?_, hstack⟩
      change F.In (owner program (fs ++ k))
      rwa [howner]
  refine ⟨?_, hstack.2⟩
  change c.In (owner program (fs ++ k))
  rwa [hstack.1]

theorem Coherent.step {limits : Limits} {world : World} {m m' : Config}
    (h : m.step limits world = some m') (hm : Coherent program m) : Coherent program m' := by
  obtain ⟨c, k, s⟩ := m
  obtain ⟨hc, hk⟩ := hm
  simp only [Config.step] at h
  split at h
  case h_1 move hmove =>
    obtain rfl := Option.some.inj h
    exact .of_move (Control.begin_in limits hmove hc) hk
  case h_2 hnone =>
    cases k with
    | nil => exact nomatch h
    | cons F k =>
      obtain rfl := Option.some.inj h
      have hpassive := Control.In.of_begin (b := owner program k) hnone
      obtain hmove | ⟨l, f, bound, rfl, -, hcall⟩ :=
        F.resume_in limits world (activations k).length s hpassive hk.1
      · exact .of_move hmove hk.2
      · rw [hcall]
        exact ⟨fun t ht => .here ht, hk⟩

theorem coherent_of_leads {limits : Limits} {world : World} {i : Interpreter} {program : Program}
    {m : Config} (h : Leads limits world (start i program) m) :
    Coherent program.statements m := by
  induction h with
  | refl => exact ⟨fun t ht => .here ht, trivial⟩
  | tail _ hstep ih => exact ih.step hstep

end Config

/-! ## Errors -/

/-- The errors of an evaluation stand at a location, and no body has been left on the way. -/
def Blames {α : Type} (l : Option Location) (x : Eval α) : Prop :=
  ∀ s e, x.verdict s = .error (.error e) → e.location = l ∧ e.trace = []

namespace Blames

variable {α β : Type} {l : Option Location}

theorem pure (a : α) : Blames l (pure a : Eval α) := fun _ _ h => nomatch h

theorem fault (f : Fault) : Blames l (Eval.fault l f : Eval α) := by
  intro s e h
  obtain rfl : RuntimeError.mk f l [] = e := by cases h; rfl
  exact ⟨rfl, rfl⟩

theorem bind {x : Eval α} {f : α → Eval β} (hx : Blames l x) (hf : ∀ a, Blames l (f a)) :
    Blames l (x >>= f) := by
  intro s e h
  rw [Eval.verdict_bind] at h
  cases hverdict : x.verdict s with
  | ok a =>
    rw [hverdict] at h
    exact hf a _ e h
  | error why =>
    rw [hverdict] at h
    obtain rfl := Except.error.inj h
    exact hx s e hverdict

theorem get_bind {f : State → Eval α} (h : ∀ s, Blames l (f s)) : Blames l (get >>= f) :=
  .bind (fun _ _ h => nomatch h) h

theorem modify (f : State → State) : Blames l (modify f : Eval Unit) := fun _ _ h => nomatch h

theorem ofExcept (r : Except Fault α) : Blames l (Eval.ofExcept l r) := by
  cases r with
  | ok a => exact .pure a
  | error f => exact .fault f

theorem evalName (l : Option Location) (name : Name) : Blames l (evalName l name) := by
  refine .get_bind fun s => ?_
  repeat' split
  all_goals first | exact .fault _ | exact .pure _

theorem evalStep (l : Option Location) (op : PostfixOperator) (name : String) :
    Blames l (evalStep l op name) := by
  refine .get_bind fun s => ?_
  split
  · exact .fault _
  · exact .bind (.modify _) fun _ => .pure _
  · exact .fault _

theorem assignTo (l : Option Location) (target : Name) (v : Value) :
    Blames l (assignTo l target v) := by
  unfold KLang.assignTo
  split
  · exact .fault _
  · refine .get_bind fun s => ?_
    split
    · exact .fault _
    · exact .modify _

theorem importModule (l : Option Location) (name : String) : Blames l (importModule l name) := by
  unfold KLang.importModule
  split
  · exact .fault _
  · exact .modify _

theorem resolve (l : Option Location) (name : Name) : Blames l (resolve l name) := by
  refine .get_bind fun s => ?_
  repeat' split
  all_goals first | exact .fault _ | exact .pure _

theorem callBuiltin (world : World) (l : Option Location) (b : Builtin) (vs : List Value) :
    Blames l (callBuiltin world l b vs) := by
  have hplot (script : List String) : Blames l (drawPlot world l script) := by
    unfold drawPlot
    split
    · exact .modify _
    · exact .fault _
  unfold KLang.callBuiltin
  dsimp only
  split
  · exact .fault _
  · split
    · exact .fault _
    · exact .ofExcept _
    · exact .bind (hplot _) fun _ => .ofExcept _

end Blames

/-- An error that has just come up at a node of a body. -/
structure RuntimeError.Fresh (b : List Statement) (e : RuntimeError) : Prop where
  node : HasNode b e.location
  trace : e.trace = []

theorem perform_error {α : Type} {l : Option Location} {x : Eval α} {give : α → Control} {s : State}
    {e : RuntimeError} (hx : Blames l x) (hl : HasNode b l) (hgive : ∀ a, give a ≠ .stop (.error e))
    (h : (perform x give s).control = .stop (.error e)) :
    e.Fresh b ∧ (perform x give s).frames = [] := by
  have hverdict := hx s e
  unfold Eval.verdict at hverdict
  unfold perform at h ⊢
  cases hrun : x.run s with
  | ok a s' =>
    rw [hrun] at h
    exact (hgive a h).elim
  | error why s' =>
    rw [hrun] at h hverdict
    obtain rfl : why = .error e := by simpa using h
    obtain ⟨hlocation, htrace⟩ := hverdict rfl
    exact ⟨⟨hlocation ▸ hl, htrace⟩, rfl⟩

theorem Expr.begin_error {e : Expr} (he : HasExpr b e) {s : State} {error : RuntimeError}
    (h : (e.begin s).control = .stop (.error error)) :
    error.Fresh b ∧ (e.begin s).frames = [] := by
  match e, he with
  | .number l x, _ => exact nomatch h
  | .string l text, _ => exact nomatch h
  | .unary l op e, _ => exact nomatch h
  | .binary l op e e', _ => exact nomatch h
  | .variable l name, he => exact perform_error (.evalName l name) (.expr he) (by simp) h
  | .step l op name, he => exact perform_error (.evalStep l op name) (.expr he) (by simp) h
  | .call l name es, he => exact perform_error (.resolve l name) (.expr he) (by simp) h

theorem Statement.begin_error (limits : Limits) {t : Statement} (ht : HasStatement b t) {s : State}
    {error : RuntimeError} (h : (t.begin limits s).control = .stop (.error error)) :
    error.Fresh b ∧ (t.begin limits s).frames = [] := by
  cases t with
  | importModule l name => exact perform_error (.importModule l name) (.statement ht) (by simp) h
  | returnValue l value => cases value <;> exact nomatch h
  | _ => exact nomatch h

theorem Control.begin_error (limits : Limits) {c : Control} {s : State} {move : Move}
    {error : RuntimeError} (hmove : c.begin limits s = some move) (hc : c.In b)
    (h : move.control = .stop (.error error)) : error.Fresh b ∧ move.frames = [] := by
  revert hmove
  fun_cases Control.begin limits s c <;> intro hmove <;>
    simp only [Option.some.injEq, reduceCtorEq] at hmove
  all_goals subst hmove
  -- an expression, a call with a wrong number of arguments, and a statement
  case case1 e => exact e.begin_error hc h
  case case3 l f es _ =>
    obtain ⟨name, hcall⟩ := hc
    exact perform_error (.fault _) (.expr hcall) (by simp) h
  case case9 t => exact t.begin_error limits hc h
  all_goals exact nomatch h

theorem Frame.resume_fresh (limits : Limits) (world : World) {F : Frame} {depth : Nat} {s : State}
    {c : Control} {error : RuntimeError} (hF : F.In b) (hc : ∀ e, c ≠ .stop (.error e))
    (h : (F.resume limits world depth s c).control = .stop (.error error)) :
    error.Fresh b ∧ (F.resume limits world depth s c).frames = [] := by
  cases F with
  | unary l op =>
    cases c with
    | value v => exact perform_error (.ofExcept _) hF (by simp) h
    | _ => exact (hc _ h).elim
  | second l op a =>
    cases c with
    | value v => exact perform_error (.ofExcept _) hF (by simp) h
    | _ => exact (hc _ h).elim
  | builtin l builtin =>
    cases c with
    | values vs => exact perform_error (.callBuiltin world l builtin vs) hF (by simp) h
    | _ => exact (hc _ h).elim
  | argument l p ps es bound =>
    cases c with
    | value v => exact perform_error (.ofExcept _) hF.1 (by simp) h
    | _ => exact (hc _ h).elim
  | declare l kind name =>
    cases c with
    | value v =>
      exact perform_error (.bind (.ofExcept _) fun _ => .modify _) hF (by simp) h
    | _ => exact (hc _ h).elim
  | assign l target =>
    cases c with
    | value v => exact perform_error (.assignTo l target v) hF (by simp) h
    | _ => exact (hc _ h).elim
  | activation l f outside =>
    cases c with
    | flow flow => exact perform_error (.ofExcept _) hF.node (by simp) h
    | stop why =>
      cases why with
      | error e => exact (hc e rfl).elim
      | callLimit | roundLimit => exact nomatch h
    | _ => exact nomatch h
  | call l f =>
    cases c with
    | bindings bound =>
      simp only [resume] at h
      split at h <;> exact nomatch h
    | _ => exact (hc _ h).elim
  | arm block rest otherwise =>
    cases c with
    | value v =>
      simp only [resume] at h
      split at h <;> exact nomatch h
    | _ => exact (hc _ h).elim
  | test condition block n =>
    cases c with
    | value v =>
      simp only [resume] at h
      split at h <;> exact nomatch h
    | _ => exact (hc _ h).elim
  | again | behind =>
    cases c with
    | flow flow => cases flow <;> exact nomatch h
    | _ => exact (hc _ h).elim
  | body outside => exact (hc _ h).elim
  | first | element | print | result | discard =>
    cases c <;> first | exact (hc _ h).elim | exact nomatch h

/-- An error that comes up stands at a node of the body that is being executed. If this ends a body,
the body has been executed to its end. -/
theorem Config.step_error {limits : Limits} {world : World} {program : List Statement}
    {m m' : Config} {e : RuntimeError} (h : m.step limits world = some m')
    (hm : Coherent program m) (hfresh : ∀ e, m.control ≠ .stop (.error e))
    (he : m'.control = .stop (.error e)) :
    e.Fresh (owner program m'.frames) ∧ (m.frames = m'.frames ∨ ∃ F, m.frames = F :: m'.frames ∧
      ∀ l f outside, F = .activation l f outside → ∃ flow, m.control = .flow flow) := by
  obtain ⟨c, k, s⟩ := m
  obtain ⟨hc, hk⟩ := hm
  simp only [step] at h
  split at h
  case h_1 move hmove =>
    obtain rfl := Option.some.inj h
    obtain ⟨hnew, hframes⟩ := Control.begin_error limits hmove hc he
    have hon : (move.on k).frames = k := by simp [Move.on, hframes]
    rw [hon]
    exact ⟨hnew, .inl rfl⟩
  case h_2 =>
    cases k with
    | nil => exact nomatch h
    | cons F k =>
      obtain rfl := Option.some.inj h
      obtain ⟨hnew, hframes⟩ := F.resume_fresh limits world hk.1 hfresh he
      have hon : ((F.resume limits world (activations k).length s c).on k).frames = k := by
        simp [Move.on, hframes]
      rw [hon]
      refine ⟨hnew, .inr ⟨F, rfl, ?_⟩⟩
      rintro l f outside rfl
      cases c with
      | flow flow => exact ⟨flow, rfl⟩
      | stop why =>
        cases why with
        | error e => exact (hfresh e rfl).elim
        | callLimit | roundLimit => exact nomatch he
      | _ => exact nomatch he

end KLang
