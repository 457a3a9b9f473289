import KLang.Proofs.Machine.Change

/-!
# What is executed at the top level

Variables are global where no body waits in the frames. There the machine only executes statements
that stand in the program itself, not in one of its blocks, and nothing but the rest of the program
waits for them.

* `AtTop`: no body waits in the frames.
* `Config.Direct`: where variables are global, the statements at hand and those that wait stand in
  the program, and `Config.direct_of_leads`: this is so in every run.
* `Config.Declares`: the machine is about to bind the variable of a declaration there.
* `Config.declares_of_new`: only then does a global variable get a new name.
-/

namespace KLang

/-- No body waits in the frames. -/
def AtTop (k : List Frame) : Prop := ∀ F ∈ k, F.Plain

theorem AtTop.nil : AtTop [] := fun _ h => absurd h List.not_mem_nil

theorem AtTop.of_cons {F : Frame} {k : List Frame} (h : AtTop (F :: k)) : AtTop k :=
  (List.forall_mem_cons.mp h).2

theorem AtTop.append {fs k : List Frame} (hfs : ∀ F ∈ fs, F.Plain) (hk : AtTop k) :
    AtTop (fs ++ k) :=
  fun F hF => (List.mem_append.mp hF).elim (hfs F) (hk F)

variable (program : List Statement)

/-- Where no body waits below, the statements stand in the program, and nothing waits for them. -/
def StandIn (ss : List Statement) (k : List Frame) : Prop :=
  AtTop k → k = [] ∧ ∀ t ∈ ss, t ∈ program

/-- Where no body waits below, the statements that the machine has at hand stand in the program. -/
def Control.Direct (k : List Frame) : Control → Prop
  | .statements ss => StandIn program ss k
  | .statement t => AtTop k → t ∈ program ∧ ∃ ss, k = [.behind ss]
  | _ => True

/-- Where no body waits below, what a frame waits for comes from a statement of the program; and a
body goes back to global variables only where no other body waits. -/
def Frame.Direct (k : List Frame) : Frame → Prop
  | .behind ss => StandIn program ss k
  | .declare l kind name => AtTop k →
    (∃ e, .declare l kind name e ∈ program) ∧ ∃ ss, k = [.behind ss]
  | .body outside | .activation _ _ outside => outside = none → AtTop k
  | _ => True

namespace Config

/-- Where variables are global, all statements that the machine has at hand or that wait stand in
the program. -/
structure Direct (m : Config) : Prop where
  control : m.control.Direct program m.frames
  frames : StackAll (fun F k => F.Direct program k) m.frames
  locals : m.state.locals = none → AtTop m.frames

variable {program} {limits : Limits} {world : World} {k : List Frame} {s : State}

theorem Direct.of_move {move : Move} (hk : StackAll (fun F k => F.Direct program k) k)
    (hs : s.locals = none → AtTop k) (hc : ∀ k, move.control.Direct program k)
    (hfs : ∀ F ∈ move.frames, F.Plain ∧ ∀ k, F.Direct program k)
    (hlocals : SamePlace s move.state) : Direct program (move.on k) where
  control := hc _
  frames := hk.append fun F hF => (hfs F hF).2
  locals h := by
    have hnone : s.locals = none := by
      have hsame := hlocals.1
      rw [show move.state.locals = none from h] at hsame
      simpa using hsame.symm
    exact .append (fun F hF => (hfs F hF).1) (hs hnone)

theorem Direct.of_perform {α : Type} {x : Eval α} {give : α → Control}
    (hk : StackAll (fun F k => F.Direct program k) k) (hs : s.locals = none → AtTop k)
    (hgive : ∀ a k, (give a).Direct program k) (hx : Reaches SamePlace x) :
    Direct program ((perform x give s).on k) := by
  refine .of_move hk hs (fun k => ?_) (by simp) (by rw [perform_state]; exact hx s)
  unfold perform
  cases x.run s with
  | ok a s' => exact hgive a k
  | error why s' => trivial

theorem begin_expr_direct (e : Expr) (hm : Direct program ⟨.expr e, k, s⟩) :
    Direct program ((e.begin s).on k) := by
  have hname {α : Type} {x : Eval α} (h : Reaches SameNames x) := names_discipline.ofExpression h
  obtain ⟨-, hk, hs⟩ := hm
  match e with
  | .number .. | .string .. =>
    exact .of_move hk hs (fun _ => trivial) (by simp [Expr.begin]) (.refl s)
  | .unary .. | .binary .. =>
    exact .of_move hk hs (fun _ => trivial)
      (by simp [Expr.begin, Frame.Plain, Frame.Direct]) (.refl s)
  | .variable l name =>
    exact .of_perform hk hs (fun _ _ => trivial) (hname (names_discipline.name l name))
  | .step l op name =>
    exact .of_perform hk hs (fun _ _ => trivial) (hname (names_discipline.step l op name))
  | .call l name es =>
    exact .of_perform hk hs (fun _ _ => trivial) (hname (names_discipline.callee l name))

theorem begin_statement_direct (t : Statement) (hm : Direct program ⟨.statement t, k, s⟩) :
    Direct program ((t.begin limits s).on k) := by
  obtain ⟨ht, hk, hs⟩ := hm
  cases t with
  | declare l kind name e =>
    -- the frame says of the declaration what is known of the statement
    refine ⟨trivial, ⟨fun htop => ?_, hk⟩,
      fun h => .append (by simp [Statement.begin, Frame.Plain]) (hs h)⟩
    obtain ⟨hmem, hrest⟩ := ht htop
    exact ⟨⟨e, hmem⟩, hrest⟩
  | importModule l name =>
    exact .of_perform hk hs (fun _ _ => trivial) (names_discipline.addImport l name)
  | returnValue l value =>
    cases value <;> exact .of_move hk hs (fun _ => trivial)
      (by simp [Statement.begin, Frame.Plain, Frame.Direct]) (.refl s)
  | _ =>
    exact .of_move hk hs (fun _ => trivial)
      (by simp [Statement.begin, Frame.Plain, Frame.Direct]) ⟨rfl, fun _ => rfl⟩

theorem begin_direct {c : Control} {move : Move} (h : c.begin limits s = some move)
    (hm : Direct program ⟨c, k, s⟩) : Direct program (move.on k) := by
  have ⟨hc, hk, hs⟩ := hm
  revert h
  fun_cases Control.begin limits s c <;> intro h <;>
    simp only [Option.some.injEq, reduceCtorEq] at h
  all_goals subst h
  -- an expression, a call with a wrong number of arguments, a statement, the first of some
  -- statements, and a block
  case case1 e => exact begin_expr_direct e hm
  case case3 l f es _ =>
    exact .of_perform hk hs (fun _ _ => trivial) (names_discipline.statements.fault l _)
  case case9 t => exact begin_statement_direct t hm
  case case11 t ss =>
    refine ⟨fun htop => ?_, ⟨fun htop => ?_, hk⟩, fun h => .append (by simp [Frame.Plain]) (hs h)⟩
    · obtain ⟨rfl, hall⟩ := hc htop.of_cons
      exact ⟨hall t List.mem_cons_self, ss, rfl⟩
    · obtain ⟨hnil, hall⟩ := hc htop
      exact ⟨hnil, fun t ht => hall t (List.mem_cons_of_mem _ ht)⟩
  case case12 ss =>
    refine ⟨fun htop => (htop _ List.mem_cons_self).elim, ⟨hs, hk⟩, fun h => ?_⟩
    cases h
  all_goals exact .of_move hk hs (fun _ => trivial) (by simp [Frame.Plain, Frame.Direct]) (.refl s)

theorem Control.Direct.of_begin {c : Control} (h : c.begin limits s = none) (k : List Frame) :
    c.Direct program k := by
  revert h
  fun_cases Control.begin limits s c <;> simp [Control.Direct]

theorem resume_direct (F : Frame) (depth : Nat) {c : Control} (hc : c.begin limits s = none)
    (hm : Direct program ⟨c, F :: k, s⟩) :
    Direct program ((F.resume limits world depth s c).on k) := by
  have hpass (k : List Frame) : c.Direct program k := Control.Direct.of_begin hc k
  obtain ⟨-, ⟨hF, hk⟩, hlocals⟩ := hm
  have hs (h : s.locals = none) : AtTop k := (hlocals h).of_cons
  have hof {α : Type} (l : Option Location) (r : Except Fault α) :=
    names_discipline.statements.ofExcept l r
  fun_cases Frame.resume limits world depth s F c
  -- a builtin function, a call, a declaration, an assignment, the rest of some statements, the end
  -- of a block and that of a function, and what lets everything else pass
  case case5 l b vs =>
    exact .of_perform hk hs (fun _ _ => trivial)
      (names_discipline.ofExpression (names_discipline.callBuiltin world l b vs))
  case case7 l f bound _ =>
    refine ⟨fun htop => (htop _ List.mem_cons_self).elim, ⟨hs, hk⟩, fun h => ?_⟩
    cases h
  case case9 l kind name v =>
    exact .of_perform hk hs (fun _ _ => trivial)
      (names_discipline.statements.bind (hof l _) fun v => names_discipline.declare name v)
  case case10 l target v =>
    exact .of_perform hk hs (fun _ _ => trivial) (names_discipline.assign l target v)
  case case19 ss => exact ⟨hF, hk, hs⟩
  case case20 outside =>
    have hs : (s.inside outside).locals = none → AtTop k := hF
    exact .of_move hk hs hpass (by simp) (.refl _)
  case case21 l f outside flow =>
    have hs : (s.inside outside).locals = none → AtTop k := hF
    exact .of_perform hk hs (fun _ _ => trivial) (hof l _)
  case case22 l f outside why =>
    have hs : (s.inside outside).locals = none → AtTop k := hF
    exact .of_move hk hs (fun _ => trivial) (by simp) (.refl _)
  case case23 => exact .of_move hk hs hpass (by simp) (.refl s)
  all_goals first
    | exact .of_perform hk hs (fun _ _ => trivial) (hof _ _)
    | exact .of_move hk hs (fun _ => trivial) (by simp [Frame.Plain, Frame.Direct])
        ⟨rfl, fun _ => rfl⟩

variable {m m' : Config}

theorem Direct.step (h : m.step limits world = some m') (hm : Direct program m) :
    Direct program m' := by
  obtain ⟨c, k, s⟩ := m
  simp only [Config.step] at h
  split at h
  case h_1 move hmove =>
    obtain rfl := Option.some.inj h
    exact begin_direct hmove hm
  case h_2 hnone =>
    cases k with
    | nil => exact nomatch h
    | cons F k =>
      obtain rfl := Option.some.inj h
      exact resume_direct F _ hnone hm

/-- Where variables are global, only statements of the program are executed. -/
theorem direct_of_leads {i : Interpreter} {program : Program}
    (h : Leads limits world (start i program) m) : Direct program.statements m := by
  induction h with
  | refl => exact ⟨fun _ => ⟨rfl, fun _ ht => ht⟩, trivial, fun _ => .nil⟩
  | tail _ hstep ih => exact ih.step hstep

/-- The machine has the value of a declaration that stands in the program, and is about to bind its
variable. Nothing but the rest of the program waits for this. -/
inductive Declares (program : List Statement) (name : String) : Config → Prop
  | intro {l : Option Location} {kind : Kind} {e : Expr} {v : Value} {ss : List Statement}
      {s : State} (h : .declare l kind name e ∈ program) (hs : s.locals = none) :
      Declares program name ⟨.value v, [.declare l kind name, .behind ss], s⟩

/-- A global variable with a new name comes from a declaration at the top level, and it comes
last. -/
theorem declares_of_new (h : m.step limits world = some m') (hm : Direct program m) {name : String}
    (hnew : name ∈ m'.state.globals.names) (hold : name ∉ m.state.globals.names) :
    Declares program name m ∧ m'.state.globals.names = m.state.globals.names ++ [name] := by
  have hchanges := step_changes h
  change name ∈ m'.state.toInterpreter.globals.names at hnew
  change _ ∧ m'.state.toInterpreter.globals.names = _
  generalize m'.state.toInterpreter = i at hchanges hnew
  cases hchanges with
  | nothing | define | addImport => exact (hold hnew).elim
  | store hname v =>
    simp only [Interpreter.letGlobal, Table.names_insert_of_mem hname] at hnew
    exact (hold hnew).elim
  | @declare l kind name' v w k s hv hs =>
    simp only [Interpreter.letGlobal, Table.names_insert] at hnew ⊢
    by_cases hname : name' ∈ s.globals.names
    · rw [if_pos hname] at hnew
      exact (hold hnew).elim
    · rw [if_neg hname] at hnew ⊢
      obtain rfl : name = name' := by simpa [hold] using hnew
      obtain ⟨⟨e, hmem⟩, ss, rfl⟩ := hm.frames.1 (hm.locals hs).of_cons
      exact ⟨.intro hmem hs, rfl⟩

end Config

end KLang
