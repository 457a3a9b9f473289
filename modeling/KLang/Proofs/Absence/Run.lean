import KLang.Proofs.Absence.Value

/-!
# The absent value is not stored

Only an assignment gives a variable the value of an expression without converting it to a kind. Its
right side has the absent value only as a call of a function that draws, which stands in the program;
so if there is no such assignment, no variable ever holds the absent value.

In the machine, the right side is evaluated on top of the frame of the assignment, and its value comes
out there. The invariant says that this is not the absent value; and before the value is there, that
neither the expression, nor what its call has been resolved to, nor the builtin function that waits
for its arguments will give it.

* `AssignsNoPlot`: programs without such an assignment, at any depth.
* `Assigned`: what comes out next is assigned.
* `Config.Filled`: the invariant, `Config.Filled.step`: a step keeps it, and `Config.filled_of_leads`:
  it is one of every run.
* `Interpreter.nil_is_not_stored`: what follows for variables, expressions and postfix operators.
-/

namespace KLang

/-! ## Programs -/

/-- The statements of a program, and those in the bodies of the functions that are declared there. -/
inductive HasNested (b : List Statement) : Statement → Prop
  | own {t : Statement} (h : HasStatement b t) : HasNested b t
  | body {l : Option Location} {f : Function} {t : Statement} (h : HasNested b (.define l f))
      (ht : HasStatement f.body.statements t) : HasNested b t

/-- No assignment, at any depth, has a call of a function with the name of one that draws as its whole
right side. Parentheses around the call make no difference, since trees have none. -/
def AssignsNoPlot (b : List Statement) : Prop :=
  ∀ l l' target e, HasNested b (.assign l l' target e) → ¬e.CallsPlot

theorem HasNested.of_define {b : List Statement} {l : Option Location} {f : Function} {t : Statement}
    (hf : HasStatement b (.define l f)) (h : HasNested f.body.statements t) : HasNested b t := by
  induction h with
  | own ht => exact .body (.own hf) ht
  | body _ ht ih => exact .body ih ht

theorem AssignsNoPlot.define {b : List Statement} (h : AssignsNoPlot b) {l : Option Location}
    {f : Function} (hf : HasStatement b (.define l f)) : AssignsNoPlot f.body.statements :=
  fun l l' target e he => h l l' target e (.of_define hf he)

/-! ## The machine -/

/-- The value that comes out next is assigned: what is on top of the assignment lets values pass. -/
def Assigned : List Frame → Prop
  | .assign _ _ :: _ => True
  | .builtin _ _ :: k | .call _ _ :: k | .print :: k | .again _ _ _ :: k | .behind _ :: k
  | .body _ :: k | .activation _ _ _ :: k => Assigned k
  | _ => False

/-- No table that the machine has at hand holds the absent value, and nothing is about to give it to an
assignment. -/
def Control.Filled (k : List Frame) : Control → Prop
  | .expr e => Assigned k → ¬e.CallsPlot
  | .callee _ (.builtin b) _ => Assigned k → b.signature.result ≠ .void
  | .arguments _ _ bound | .bindings bound => bound.Filled
  | .value v => Assigned k → v ≠ .nil
  | _ => True

/-- No table that a frame holds does, and no function without a result gives its value to an assignment.
-/
def Frame.Filled (k : List Frame) : Frame → Prop
  | .builtin _ b => Assigned k → b.signature.result ≠ .void
  | .argument _ _ _ _ bound => bound.Filled
  | .body outside | .activation _ _ outside => ∀ t ∈ outside, t.Filled
  | _ => True

theorem Control.Filled.pass {limits : Limits} {s : State} {c : Control} {F : Frame} {k : List Frame}
    (hbegin : c.begin limits s = none) (hc : c.Filled (F :: k))
    (hpass : ∀ v, c = .value v → Assigned k → Assigned (F :: k)) : c.Filled k := by
  revert hbegin
  fun_cases Control.begin limits s c <;> intro hbegin <;> simp only [reduceCtorEq] at hbegin
  case case18 v => exact fun hk => hc (hpass v rfl hk)
  case case20 bound => exact hc
  all_goals trivial

namespace Config

/-- No variable holds the absent value, and none is about to be assigned. -/
structure Filled (m : Config) : Prop where
  control : m.control.Filled m.frames
  frames : StackAll (fun F k => F.Filled k) m.frames
  state : m.state.Filled

variable {limits : Limits} {world : World} {k : List Frame} {s : State}

theorem Filled.of_perform {α : Type} {x : Eval α} {give : α → Control}
    (hk : StackAll (fun F k => F.Filled k) k) (hs : (x.after s).Filled)
    (hgive : ∀ a, x.verdict s = .ok a → (give a).Filled k) : Filled ((perform x give s).on k) := by
  unfold Eval.after at hs
  unfold Eval.verdict at hgive
  unfold perform
  cases hx : x.run s with
  | ok a s' =>
    rw [hx] at hs hgive
    exact ⟨hgive a rfl, hk, hs⟩
  | error why s' =>
    rw [hx] at hs
    exact ⟨trivial, hk, hs⟩

theorem Filled.of_ofExcept {α : Type} {l : Option Location} {r : Except Fault α} {give : α → Control}
    (hk : StackAll (fun F k => F.Filled k) k) (hs : s.Filled)
    (hgive : ∀ a, r = .ok a → (give a).Filled k) :
    Filled ((perform (Eval.ofExcept l r) give s).on k) :=
  .of_perform hk (hs.ofExcept l r) fun a ha => hgive a (Eval.verdict_ofExcept.mp ha)

theorem begin_expr_filled (e : Expr) (hm : Filled ⟨.expr e, k, s⟩) (hregistered : s.Registered) :
    Filled ((e.begin s).on k) := by
  obtain ⟨he, hk, hs⟩ := hm
  match e with
  | .number l x => exact ⟨fun _ => nofun, hk, hs⟩
  | .string l text => exact ⟨fun _ => nofun, hk, hs⟩
  | .unary l op e => exact ⟨False.elim, ⟨trivial, hk⟩, hs⟩
  | .binary l op a b => exact ⟨False.elim, ⟨trivial, hk⟩, hs⟩
  | .variable l name =>
    refine .of_perform hk ?_ fun v hv _ => evalName_ne_nil hs hv
    rw [Eval.after_evalName]
    exact hs
  | .step l op name => exact .of_perform hk (hs.evalStep l op name) fun v hv _ => evalStep_ne_nil hv
  | .call l name es =>
    refine .of_perform hk ?_ fun callee hcallee => ?_
    · rw [Eval.after_resolve]
      exact hs
    · cases callee with
      | function f => trivial
      | builtin b =>
        intro hassigned hvoid
        have hcalls : (Expr.call l name es).CallsVoid s := ⟨l, name, es, b, rfl, hcallee, hvoid⟩
        exact he hassigned (hcalls.callsPlot hregistered)

theorem begin_statement_filled (t : Statement) (hm : Filled ⟨.statement t, k, s⟩)
    (hcode : ∀ l l' target e, t = .assign l l' target e → ¬e.CallsPlot) :
    Filled ((t.begin limits s).on k) := by
  obtain ⟨-, hk, hs⟩ := hm
  cases t with
  | assign l l' target e => exact ⟨fun _ => hcode l l' target e rfl, ⟨trivial, hk⟩, hs⟩
  | define l f => exact ⟨trivial, hk, hs.globals, hs.locals⟩
  | importModule l name => exact .of_perform hk (hs.importModule l name) fun _ _ => trivial
  | returnValue l value =>
    cases value with
    | none => exact ⟨trivial, hk, hs⟩
    | some e => exact ⟨False.elim, ⟨trivial, hk⟩, hs⟩
  | declare | evaluate => exact ⟨False.elim, ⟨trivial, hk⟩, hs⟩
  | print => exact ⟨trivial, ⟨trivial, hk⟩, hs⟩
  | branch | loop => exact ⟨trivial, hk, hs⟩

theorem begin_filled {c : Control} {move : Move} (h : c.begin limits s = some move)
    (hm : Filled ⟨c, k, s⟩) (hregistered : s.Registered)
    (hcode : ∀ l l' target e, c = .statement (.assign l l' target e) → ¬e.CallsPlot) :
    Filled (move.on k) := by
  have ⟨hc, hk, hs⟩ := hm
  revert h
  fun_cases Control.begin limits s c <;> intro h <;>
    simp only [Option.some.injEq, reduceCtorEq] at h
  all_goals subst h
  -- an expression, the four ways on from a call, parameters that are bound, a statement, and a block
  case case1 e => exact begin_expr_filled e hm hregistered
  case case2 l b es => exact ⟨trivial, ⟨hc, hk⟩, hs⟩
  case case3 l f es _ => exact .of_ofExcept (r := .error _) hk hs (by simp)
  case case4 => exact ⟨.empty, ⟨trivial, hk⟩, hs⟩
  case case7 => exact ⟨False.elim, ⟨hc, hk⟩, hs⟩
  case case8 => exact ⟨hc, hk, hs⟩
  case case9 t =>
    exact begin_statement_filled t hm fun l l' target e ht => hcode l l' target e (congrArg _ ht)
  case case12 ss =>
    refine ⟨trivial, ⟨hs.locals, hk⟩, hs.inside fun t ht => ?_⟩
    obtain rfl := Option.some.inj ht
    exact .empty
  -- expressions below which a frame takes their values, and what holds no table
  all_goals first
    | exact ⟨False.elim, ⟨trivial, hk⟩, hs⟩
    | exact ⟨trivial, ⟨trivial, hk⟩, hs⟩
    | exact ⟨trivial, hk, hs⟩

theorem resume_filled (F : Frame) (depth : Nat) {c : Control} (hbegin : c.begin limits s = none)
    (hm : Filled ⟨c, F :: k, s⟩) : Filled ((F.resume limits world depth s c).on k) := by
  obtain ⟨hc, ⟨hF, hk⟩, hs⟩ := hm
  fun_cases Frame.resume limits world depth s F c
  -- the operators, a builtin function, an argument, a call, a declaration, an assignment, a line that is
  -- printed, the ends of a block and of a function, and what lets everything else pass
  case case1 l op v => exact .of_ofExcept hk hs fun w hw _ => UnaryOperator.apply_ne_nil hw
  case case3 l op a v => exact .of_ofExcept hk hs fun w hw _ => BinaryOperator.apply_ne_nil hw
  case case5 l b vs =>
    refine .of_perform hk (hs.callBuiltin world l b vs) fun v hv hassigned hnil => ?_
    exact hF hassigned ((callBuiltin_eq_nil hv).mp hnil)
  case case6 l p ps todo bound v =>
    exact .of_ofExcept hk hs fun w hw => hF.insert p.name (Value.holds_of_coerce hw).ne_nil
  case case7 l f bound _ =>
    refine ⟨trivial, ⟨hs.locals, hk⟩, hs.inside fun t ht => ?_⟩
    obtain rfl := Option.some.inj ht
    exact hc
  case case9 l kind name v =>
    refine .of_perform hk ?_ fun _ _ => trivial
    cases hw : v.coerce kind with
    | error f => exact hs
    | ok w => exact hs.declare name (Value.holds_of_coerce hw).ne_nil
  case case10 l target v => exact .of_perform hk (hs.assignTo l target (hc trivial)) fun _ _ => trivial
  case case11 vs => exact ⟨trivial, hk, hs.globals, hs.locals⟩
  case case20 outside => exact ⟨hc.pass hbegin fun _ _ h => h, hk, hs.inside hF⟩
  case case21 l f outside flow =>
    exact .of_ofExcept hk (hs.inside hF) fun w hw _ => (Value.holds_of_coerce hw).ne_nil
  case case22 l f outside why => exact ⟨trivial, hk, hs.inside hF⟩
  case case23 =>
    refine ⟨hc.pass hbegin ?_, hk, hs⟩
    rintro v rfl hassigned
    -- the frames that wait for a value have been met before
    cases F <;> first | exact hassigned | grind
  all_goals first
    | exact ⟨False.elim, ⟨trivial, hk⟩, hs⟩
    | exact ⟨trivial, ⟨trivial, hk⟩, hs⟩
    | exact ⟨trivial, hk, hs⟩

variable {m m' : Config}

theorem Filled.step (h : m.step limits world = some m') (hm : Filled m)
    (hregistered : m.state.Registered)
    (hcode : ∀ l l' target e, m.control = .statement (.assign l l' target e) → ¬e.CallsPlot) :
    Filled m' := by
  obtain ⟨c, k, s⟩ := m
  simp only [Config.step] at h
  split at h
  case h_1 move hmove =>
    obtain rfl := Option.some.inj h
    exact begin_filled hmove hm hregistered hcode
  case h_2 hnone =>
    cases k with
    | nil => exact nomatch h
    | cons F k =>
      obtain rfl := Option.some.inj h
      exact resume_filled F _ hnone hm

/-- In an interpreter whose variables are filled, those of a run are, if neither the program nor any
function assigns a plot. -/
theorem filled_of_leads {i : Interpreter} {program : Program} (hsound : i.Sound)
    (hglobals : i.globals.Filled)
    (hfunctions : Declared (fun f => AssignsNoPlot f.body.statements) i.start)
    (hprogram : AssignsNoPlot program.statements) (h : Leads limits world (start i program) m) :
    Filled m ∧ Declared (fun f => AssignsNoPlot f.body.statements) m.state := by
  have hknown {m : Config} (h : Leads limits world (start i program) m) :=
    known_of_leads hfunctions (fun _ _ => hprogram.define) (fun _ hf _ _ => hf.define) h
  refine ⟨?_, (hknown h).1⟩
  induction h with
  | refl => exact ⟨trivial, trivial, hglobals, nofun⟩
  | @tail m m' hleads hstep ih =>
    refine ih.step hstep (sound_of_leads hleads hsound).1.registered fun l l' target e he => ?_
    have hstatement := (coherent_of_leads hleads).control
    rw [he] at hstatement
    -- the assignment stands in the program or in the body of a function
    obtain howner | ⟨f, hf, howner⟩ := owner_cases (hknown hleads).2.frames <;>
      rw [howner] at hstatement
    · exact hprogram l l' target e (.own hstatement)
    · exact hf l l' target e (.own hstatement)

end Config

/-! ## Runs -/

/-- The parameters that are being bound. -/
def Control.tables : Control → List (Table Value)
  | .arguments _ _ bound | .bindings bound => [bound]
  | _ => []

/-- The parameters that are being bound, and the variables that a body goes back to. -/
def Frame.tables : Frame → List (Table Value)
  | .argument _ _ _ _ bound => [bound]
  | .body outside | .activation _ _ outside => outside.toList
  | _ => []

/-- All variables that there are: the global ones, those of the body that is being executed, and those
of the bodies around it and of the calls that are begun. -/
def Config.tables (m : Config) : List (Table Value) :=
  m.state.globals :: m.state.locals.toList ++ m.control.tables ++ m.frames.flatMap Frame.tables

theorem Control.Filled.tables {c : Control} {k : List Frame} (hc : c.Filled k) :
    ∀ t ∈ c.tables, t.Filled := by
  cases c with
  | arguments ps es bound | bindings bound => exact List.forall_mem_singleton.mpr hc
  | _ => exact List.forall_mem_nil _

theorem Frame.Filled.tables {F : Frame} {k : List Frame} (hF : F.Filled k) :
    ∀ t ∈ F.tables, t.Filled := by
  cases F with
  | argument l p ps es bound => exact List.forall_mem_singleton.mpr hF
  | body outside | activation l f outside => exact fun t ht => hF t (Option.mem_toList.mp ht)
  | _ => exact List.forall_mem_nil _

theorem filled_flatMap {k : List Frame} (hk : StackAll (fun F k => F.Filled k) k) :
    ∀ t ∈ k.flatMap Frame.tables, t.Filled := by
  induction k with
  | nil => exact List.forall_mem_nil _
  | cons F k ih =>
    rw [List.flatMap_cons]
    exact List.forall_mem_append.mpr ⟨hk.1.tables, ih hk.2⟩

theorem Config.Filled.tables {m : Config} (hm : Filled m) : ∀ t ∈ m.tables, t.Filled := by
  have hlocals : ∀ t ∈ m.state.locals.toList, t.Filled :=
    fun t ht => hm.state.locals t (Option.mem_toList.mp ht)
  have hstate := List.forall_mem_cons.mpr ⟨hm.state.globals, hlocals⟩
  have hcontrol := List.forall_mem_append.mpr ⟨hstate, hm.control.tables⟩
  exact List.forall_mem_append.mpr ⟨hcontrol, filled_flatMap hm.frames⟩

namespace Interpreter

/-- An interpreter in which only texts have been run that assign no plot. -/
inductive PlotFree : Interpreter → Prop
  | empty : PlotFree ∅
  | text {i : Interpreter} (h : PlotFree i) (limits : Limits) (world : World) (output : Output)
      (source : String) (location : Option Location)
      (hsource : ∀ program, Program.ofText source location = .ok program →
        AssignsNoPlot program.statements) :
      PlotFree (Session.eval limits world ⟨i, output⟩ source location).2.interpreter

theorem PlotFree.filled {i : Interpreter} (h : i.PlotFree) :
    i.Sound ∧ i.globals.Filled ∧
      Config.Declared (fun f => AssignsNoPlot f.body.statements) i.start := by
  induction h with
  | empty => exact ⟨sound_empty, .empty, nofun⟩
  | @text i _ limits world output source location hsource ih =>
    obtain ⟨hsound, hglobals, hfunctions⟩ := ih
    rw [Session.eval]
    cases hprogram : Program.ofText source location with
    | error e =>
      rw [runText, hprogram]
      exact ⟨hsound, hglobals, hfunctions⟩
    | ok program =>
      rw [runText, hprogram]
      change (i.run limits world program).interpreter.Sound ∧
        (i.run limits world program).interpreter.globals.Filled ∧
        Config.Declared _ (i.run limits world program).interpreter.start
      obtain ⟨m, hleads, hend⟩ := Config.exists_leads_run limits world i program
      rw [hend]
      obtain ⟨hfilled, hdeclared⟩ :=
        Config.filled_of_leads hsound hglobals hfunctions (hsource program hprogram) hleads
      exact ⟨(Config.sound_of_leads hleads hsound).1, hfilled.state.globals, hdeclared⟩

/-- **The absent value is not stored.** Texts have been run in a fresh interpreter, and a program is
being executed there, all without an assignment whose right side is a call of a function with the name
of one that draws. At each point of this run, no variable holds the absent value: neither a global one
nor one of the body that is being executed, of a body around it or of a call that is begun. An
expression has the absent value there exactly if it is a call that is resolved to a builtin function
without a result, and where the machine is about to evaluate the expression, this value comes out. No
postfix operator fails there because its variable holds the absent value. -/
theorem nil_is_not_stored {i : Interpreter} (hi : i.PlotFree) {limits : Limits} {world : World}
    {program : Program} (hprogram : AssignsNoPlot program.statements) {m : Config}
    (hm : Config.Leads limits world (Config.start i program) m) :
    (∀ t ∈ m.tables, ∀ name v, (name, v) ∈ t.entries → v ≠ .nil) ∧
    (∀ e depth v s,
      (evalExpr world (enterBody world limits.rounds depth) e).run m.state = .ok v s →
        (v = .nil ↔ e.CallsVoid m.state) ∧
        (m.control = .expr e → (activations m.frames).length + depth = limits.calls →
          Config.Leads limits world m ⟨.value v, m.frames, s⟩)) ∧
    ∀ l op name e, (evalStep l op name).verdict m.state = .error (.error e) →
      ∀ name', e.fault ≠ .postfixOperand name' .nil := by
  obtain ⟨hsound, hglobals, hfunctions⟩ := hi.filled
  obtain ⟨hfilled, -⟩ := Config.filled_of_leads hsound hglobals hfunctions hprogram hm
  refine ⟨fun t ht name v => hfilled.tables t ht (name, v), fun e depth v s hrun => ⟨?_, ?_⟩,
    fun l op name e => evalStep_fault hfilled.state⟩
  · have hverdict : (evalExpr world (enterBody world limits.rounds depth) e).verdict m.state =
        .ok v := by
      rw [Eval.verdict, hrun]
    exact evalExpr_eq_nil hfilled.state hverdict
  · intro hcontrol hdepth
    obtain ⟨c, k, s'⟩ := m
    obtain rfl : c = .expr e := hcontrol
    have hleads : Config.Leads limits world ⟨.expr e, k, s'⟩
        ((perform (evalExpr world (enterBody world limits.rounds depth) e) .value s').on k) :=
      CarriesOut.expr CarriesOut.bindings e k s' hdepth
    rwa [perform_of_ok hrun] at hleads

theorem nil_is_not_stored_declare :
    let world : World := ⟨"", false, fun _ => false⟩
    let plot : Expr := .call none ⟨some "math", "plot_function"⟩ [.string none "x"]
    let program : Program := ⟨none, [.importModule none "math", .declare none .var "x" plot]⟩
    PlotFree ∅ ∧ AssignsNoPlot program.statements ∧
      ∃ k s s' m, Config.Leads .standard world (Config.start ∅ program) ⟨.expr plot, k, s⟩ ∧
        Config.Leads .standard world ⟨.expr plot, k, s⟩ ⟨.value .nil, k, s'⟩ ∧ plot.CallsVoid s ∧
        Config.Leads .standard world ⟨.value .nil, k, s'⟩ m ∧
        m.state.globals.entries = [("x", .number 0)] ∧
        ∀ t ∈ m.tables, ∀ name v, (name, v) ∈ t.entries → v ≠ .nil := by
  intro world plot program
  have hprogram : AssignsNoPlot program.statements := by
    -- there are no statements in others
    have hown {t : Statement} (h : HasStatement program.statements t) : t ∈ program.statements := by
      induction h with
      | here h => exact h
      | arm _ _ _ ih | otherwise _ _ ih | loop _ _ ih => simp [program] at ih
    have hnested {t : Statement} (h : HasNested program.statements t) : t ∈ program.statements := by
      induction h with
      | own h => exact hown h
      | body _ _ ih => simp [program] at ih
    intro l l' target e h
    simpa [program] using hnested h
  let s : State := ⟨⟨∅, ∅, Table.insert ∅ "math" .math⟩, none, ∅⟩
  have hbegin : Config.Leads .standard world (Config.start ∅ program)
      ⟨.expr plot, [.declare none .var "x", .behind []], s⟩ :=
    .head rfl (.head rfl (.head rfl (.head rfl (.head rfl .refl))))
  obtain ⟨s', hrun, hglobals, hlocals⟩ : ∃ s', (evalExpr world (enterBody world
      Limits.standard.rounds Limits.standard.calls) plot).run s = .ok .nil s' ∧
        s'.globals = ∅ ∧ s'.locals = none := ⟨_, rfl, rfl, rfl⟩
  obtain ⟨hnil, hvalue⟩ := (nil_is_not_stored .empty hprogram hbegin).2.1 _ _ _ _ hrun
  have hplot := hvalue rfl (Nat.zero_add _)
  have hdeclare : Config.Leads .standard world
      ⟨.value .nil, [.declare none .var "x", .behind []], s'⟩
      ⟨.flow .next, [.behind []], s'.declare "x" (.number 0)⟩ := .head rfl .refl
  have hend := (hbegin.trans hplot).trans hdeclare
  refine ⟨.empty, hprogram, _, _, s', _, hbegin, hplot, hnil.mp rfl, hdeclare, ?_,
    (nil_is_not_stored .empty hprogram hend).1⟩
  simp only [State.declare, hlocals, hglobals]
  rfl

end Interpreter

end KLang
