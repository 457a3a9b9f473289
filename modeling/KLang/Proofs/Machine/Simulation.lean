import KLang.Proofs.Evaluation.Effect
import KLang.Proofs.Machine.Step

/-!
# The machine does what the evaluator does

* `CarriesOut`: on whatever frames it stands, the machine comes from one point of its work to the
  outcome of an evaluation, and nothing has touched the frames below.
* `CarriesOut.expr`, `CarriesOut.statement`, `CarriesOut.bindings`: it carries out every expression,
  every statement and every body of a function.
* `Config.start_leads`, `Config.leads_of_start`: every run of the machine ends, as the evaluator
  does.
-/

namespace KLang

/-! ## Leaves -/

section perform

variable {α β : Type} (s : State)

theorem Eval.run_bind_of_ok {x : Eval α} {s s' : State} {a : α} (h : x.run s = .ok a s')
    (f : α → Eval β) : (x >>= f).run s = (f a).run s' := by
  rw [Eval.run_bind, Eval.verdict, Eval.after, h]

theorem Eval.run_bind_of_error {x : Eval α} {s s' : State} {why : Stop}
    (h : x.run s = .error why s') (f : α → Eval β) : (x >>= f).run s = .error why s' := by
  rw [Eval.run_bind, Eval.verdict, Eval.after, h]

theorem perform_pure (a : α) (give : α → Control) :
    perform (pure a : Eval α) give s = ⟨give a, [], s⟩ := rfl

theorem perform_bind_pure (x : Eval α) (f : α → β) (give : β → Control) :
    perform (x >>= fun a => pure (f a)) give s = perform x (fun a => give (f a)) s := by
  rw [perform, Eval.run_bind, perform, Eval.run_eq x]
  cases x.verdict s <;> rfl

theorem perform_of_ok {x : Eval α} {s s' : State} {a : α} (h : x.run s = .ok a s')
    (give : α → Control) : perform x give s = ⟨give a, [], s'⟩ := by
  rw [perform, h]

theorem perform_of_error {x : Eval α} {s s' : State} {why : Stop} (h : x.run s = .error why s')
    (give : α → Control) : perform x give s = ⟨.stop why, [], s'⟩ := by
  rw [perform, h]

@[simp] theorem perform_frames (x : Eval α) (give : α → Control) :
    (perform x give s).frames = [] := by
  unfold perform
  cases x.run s <;> rfl

@[simp] theorem perform_state (x : Eval α) (give : α → Control) :
    (perform x give s).state = x.after s := by
  unfold perform Eval.after
  cases x.run s <;> rfl

theorem perform_control_ne {s : State} {x : Eval α} {give : α → Control} {c : Control}
    (hgive : ∀ a, give a ≠ c) (hstop : ∀ why, .stop why ≠ c) : (perform x give s).control ≠ c := by
  unfold perform
  cases x.run s with
  | ok a s' => exact hgive a
  | error why s' => exact hstop why

end perform

/-! ## Frames that let stops pass -/

/-- Neither the end of a body nor the end of a function. -/
def Frame.Plain : Frame → Prop
  | .body _ | .activation .. => False
  | _ => True

variable (limits : Limits) (world : World)

theorem Frame.Plain.resume_stop {F : Frame} (h : F.Plain) (depth : Nat) (s : State) (why : Stop) :
    F.resume limits world depth s (.stop why) = ⟨.stop why, [], s⟩ := by
  cases F <;> first | rfl | exact h.elim

theorem Frame.Plain.activations {F : Frame} (h : F.Plain) (k : List Frame) :
    activations (F :: k) = activations k := by
  cases F <;> first | rfl | exact h.elim

/-! ## Steps in a row -/

namespace Config

variable {limits world} {m m' m'' : Config}

theorem Leads.refl : Leads limits world m m := Relation.ReflTransGen.refl

theorem Leads.trans (h : Leads limits world m m') (h' : Leads limits world m' m'') :
    Leads limits world m m'' :=
  Relation.ReflTransGen.trans h h'

theorem Leads.head (h : m.step limits world = some m') (h' : Leads limits world m' m'') :
    Leads limits world m m'' :=
  Relation.ReflTransGen.head h h'

theorem Leads.tail (h : Leads limits world m m') (h' : m'.step limits world = some m'') :
    Leads limits world m m'' :=
  Relation.ReflTransGen.tail h h'

end Config

/-! ## Carrying out an evaluation -/

/-- Where `depth` further calls may be nested, the machine comes from a point of its work to the
outcome of an evaluation, whatever the frames below are. -/
def CarriesOut {α : Type} (depth : Nat) (c : Control) (fs : List Frame) (give : α → Control)
    (x : Eval α) : Prop :=
  ∀ k s, (activations k).length + depth = limits.calls →
    Config.Leads limits world ⟨c, fs ++ k, s⟩ ((perform x give s).on k)

/-- The machine carries out every call whose arguments are bound, as an evaluator does that enters the
bodies of functions by `enter`. -/
def CarriesOutCalls (depth : Nat) (enter : Enter) : Prop :=
  ∀ l f bound, CarriesOut limits world depth (.bindings bound) [.call l f] .value
    (callFunction enter l f bound)

namespace CarriesOut

variable {limits world} {α β : Type} {depth : Nat} {c c' : Control} {fs : List Frame}
  {x : Eval α} {f : α → Eval β} {give : α → Control} {give' : β → Control}

theorem step (fs' : List Frame)
    (hstep : ∀ k s, Config.step limits world ⟨c, fs ++ k, s⟩ = some ⟨c', fs' ++ k, s⟩)
    (h : CarriesOut limits world depth c' fs' give x) :
    CarriesOut limits world depth c fs give x :=
  fun k s hk => .head (hstep k s) (h k s hk)

theorem leaf (hstep : ∀ k s, Config.step limits world ⟨c, fs ++ k, s⟩ =
      some ((perform x give s).on k)) :
    CarriesOut limits world depth c fs give x :=
  fun k s _ => .head (hstep k s) .refl

theorem leaf_bind (give : α → Control) (hstep : ∀ k s, Config.step limits world ⟨c, fs ++ k, s⟩ =
      some ((perform x give s).on k))
    (h : ∀ a, CarriesOut limits world depth (give a) [] give' (f a)) :
    CarriesOut limits world depth c fs give' (x >>= f) := by
  intro k s hk
  refine .head (hstep k s) ?_
  cases hx : x.run s with
  | ok a s' =>
    rw [perform_of_ok hx, perform, Eval.run_bind_of_ok hx]
    exact h a k s' hk
  | error why s' =>
    rw [perform_of_error hx, perform_of_error (Eval.run_bind_of_error hx f)]
    exact .refl

theorem bind {F : Frame} (hF : F.Plain) (hx : CarriesOut limits world depth c [] give x)
    (h : ∀ a, CarriesOut limits world depth (give a) [F] give' (f a)) :
    CarriesOut limits world depth c [F] give' (x >>= f) := by
  intro k s hk
  refine (hx (F :: k) s (by rwa [hF.activations])).trans ?_
  cases hrun : x.run s with
  | ok a s' =>
    rw [perform_of_ok hrun, perform, Eval.run_bind_of_ok hrun]
    exact h a k s' hk
  | error why s' =>
    rw [perform_of_error hrun, perform_of_error (Eval.run_bind_of_error hrun f)]
    refine .head ?_ .refl
    change some ((F.resume limits world _ s' (.stop why)).on k) = _
    rw [hF.resume_stop]

end CarriesOut

/-! ## The end of a body -/

theorem execBlock_eq (world : World) (enter : Enter) (rounds : Nat) (b : Block) :
    execBlock world enter rounds b = execAll world enter rounds b.statements := by
  cases b
  rw [execBlock]

section bodies

variable {limits world} (body : Eval Flow) (bound : Table Value) (k : List Frame) (s : State)

theorem Config.step_body :
    Config.step limits world ((perform body .flow (s.inside (some bound))).on
      (.body s.locals :: k)) = some ((perform (within bound body) .flow s).on k) := by
  have hwithin := Eval.run_within bound body s
  cases hbody : body.run (s.inside (some bound)) with
  | ok flow s' =>
    rw [hbody] at hwithin
    rw [perform_of_ok hbody, perform_of_ok hwithin]
    rfl
  | error why s' =>
    rw [hbody] at hwithin
    rw [perform_of_error hbody, perform_of_error hwithin]
    rfl

theorem Config.step_activation (l : Option Location) (f : Function) :
    Config.step limits world ((perform body .flow (s.inside (some bound))).on
        (.activation l f s.locals :: k)) =
      some ((perform (tracing ⟨f.name, l⟩ (within bound body) >>= fun flow =>
        Eval.ofExcept l (flow.value.coerce f.kind)) .value s).on k) := by
  have htracing := Eval.run_tracing ⟨f.name, l⟩ (within bound body) s
  rw [Eval.run_within] at htracing
  cases hbody : body.run (s.inside (some bound)) with
  | ok flow s' =>
    rw [hbody] at htracing
    rw [perform_of_ok hbody]
    simp only [perform, Eval.run_bind_of_ok htracing]
    rfl
  | error why s' =>
    rw [hbody] at htracing
    rw [perform_of_error hbody, perform_of_error (Eval.run_bind_of_error htracing _)]
    rfl

end bodies

/-! ## Expressions and statements -/

namespace CarriesOut

variable {limits world} {depth : Nat} {enter : Enter}

mutual

/-- The machine carries out every expression. -/
theorem expr (hcall : CarriesOutCalls limits world depth enter) (e : Expr) :
    CarriesOut limits world depth (.expr e) [] .value (evalExpr world enter e) := by
  match e with
  | .number l x => exact leaf fun _ _ => rfl
  | .string l text => exact leaf fun _ _ => rfl
  | .variable l name => exact leaf fun _ _ => rfl
  | .unary l op e =>
    rw [evalExpr]
    refine step [.unary l op] (fun _ _ => rfl) (bind trivial (expr hcall e) fun v => ?_)
    exact leaf fun _ _ => rfl
  | .binary l op a b =>
    rw [evalExpr]
    refine step [.first l op b] (fun _ _ => rfl) (bind trivial (expr hcall a) fun v => ?_)
    refine step [.second l op v] (fun _ _ => rfl) (bind trivial (expr hcall b) fun w => ?_)
    exact leaf fun _ _ => rfl
  | .step l op name => exact leaf fun _ _ => rfl
  | .call l name es =>
    rw [evalExpr]
    refine leaf_bind (.callee l · es) (fun _ _ => rfl) fun callee => ?_
    cases callee with
    | builtin b =>
      have hvalues := all hcall es []
      simp only [List.nil_append, bind_pure] at hvalues
      refine step [.builtin l b] (fun _ _ => rfl) (bind trivial hvalues fun vs => ?_)
      exact leaf fun _ _ => rfl
    | function f =>
      by_cases hlength : es.length = f.parameters.length
      · simp only [ne_eq, hlength, not_true_eq_false, if_false]
        refine step [.call l f] (fun k s => ?_)
          (bind trivial (arguments hcall f.parameters es ∅) fun bound => hcall l f bound)
        simp [Config.step, Control.begin, hlength, Move.on]
      · simp only [ne_eq, hlength, not_false_eq_true, if_true]
        refine leaf fun k s => ?_
        simp [Config.step, Control.begin, hlength]

theorem all (hcall : CarriesOutCalls limits world depth enter) (es : List Expr)
    (done : List Value) :
    CarriesOut limits world depth (.all done es) [] .values
      (evalAll world enter es >>= fun vs => pure (done ++ vs)) := by
  match es with
  | [] =>
    simp only [evalAll, pure_bind, List.append_nil]
    exact leaf fun _ _ => rfl
  | e :: es =>
    have hassoc : (evalAll world enter (e :: es) >>= fun vs => pure (done ++ vs)) =
        evalExpr world enter e >>= fun v =>
          evalAll world enter es >>= fun vs => pure (done ++ [v] ++ vs) := by
      simp [evalAll]
    rw [hassoc]
    refine step [.element done es] (fun _ _ => rfl) (bind trivial (expr hcall e) fun v => ?_)
    exact step [] (fun _ _ => rfl) (all hcall es (done ++ [v]))

theorem arguments (hcall : CarriesOutCalls limits world depth enter) (ps : List Parameter)
    (es : List Expr) (bound : Table Value) :
    CarriesOut limits world depth (.arguments ps es bound) [] .bindings
      (evalArguments world enter ps es bound) := by
  match es, ps with
  | [], [] => exact leaf fun _ _ => rfl
  | [], _ :: _ => exact leaf fun _ _ => rfl
  | _ :: _, [] => exact leaf fun _ _ => rfl
  | e :: es, p :: ps =>
    rw [evalArguments]
    refine step [.argument e.location p ps es bound] (fun _ _ => rfl)
      (bind trivial (expr hcall e) fun v => ?_)
    refine leaf_bind (fun v => .arguments ps es (bound.insert p.name v)) (fun _ _ => rfl)
      fun v => ?_
    exact arguments hcall ps es (bound.insert p.name v)

end

/-! ## Statements -/

theorem block_of_statements {ss : List Statement} {body : Eval Flow}
    (h : CarriesOut limits world depth (.statements ss) [] .flow body) :
    CarriesOut limits world depth (.block ss) [] .flow (within ∅ body) := by
  intro k s hk
  have hbegin : Config.step limits world ⟨.block ss, [] ++ k, s⟩ =
      some ⟨.statements ss, [] ++ .body s.locals :: k, s.inside (some ∅)⟩ := rfl
  refine .head hbegin (.trans (h (.body s.locals :: k) _ hk) ?_)
  exact .head (Config.step_body body ∅ k s) .refl

theorem rounds (hcall : CarriesOutCalls limits world depth enter) {condition : Expr}
    {block : Block} {body : Eval Flow}
    (h : CarriesOut limits world depth (.block block.statements) [] .flow body) (n : Nat) :
    CarriesOut limits world depth (.rounds condition block n) [] .flow
      (repeatWhile (evalExpr world enter condition) body n) := by
  induction n with
  | zero => exact leaf fun _ _ => rfl
  | succ n ih =>
    rw [repeatWhile]
    refine step [.test condition block n] (fun _ _ => rfl)
      (bind trivial (expr hcall condition) fun v => ?_)
    cases hv : v.truthy with
    | false =>
      refine leaf fun k s => ?_
      simp [Config.step, Control.begin, Frame.resume, hv, perform_pure]
    | true =>
      refine step [.again condition block n] (fun k s => ?_)
        (bind trivial h fun flow => ?_)
      · simp [Config.step, Control.begin, Frame.resume, hv, Move.on]
      · cases flow with
        | next => exact step [] (fun _ _ => rfl) ih
        | returned w => exact leaf fun _ _ => rfl

mutual

/-- The machine carries out every statement. -/
theorem statement (hcall : CarriesOutCalls limits world depth enter) (t : Statement) :
    CarriesOut limits world depth (.statement t) [] .flow
      (execStatement world enter limits.rounds t) := by
  match t with
  | .declare l kind name value =>
    rw [execStatement]
    refine step [.declare l kind name] (fun _ _ => rfl)
      (bind trivial (expr hcall value) fun v => leaf fun k s => ?_)
    rw [← bind_assoc, perform_bind_pure]
    rfl
  | .assign l l' target value =>
    rw [execStatement]
    refine step [.assign l target] (fun _ _ => rfl)
      (bind trivial (expr hcall value) fun v => leaf fun k s => ?_)
    rw [perform_bind_pure]
    rfl
  | .print l items =>
    have hvalues := all hcall items []
    simp only [List.nil_append, bind_pure] at hvalues
    rw [execStatement, evalLine, bind_assoc]
    refine step [.print] (fun _ _ => rfl) (bind trivial hvalues fun vs => ?_)
    exact leaf fun _ _ => rfl
  | .branch l branches otherwise =>
    rw [execStatement]
    exact step [] (fun _ _ => rfl) (arms hcall (last hcall otherwise) branches)
  | .loop l condition body =>
    rw [execStatement]
    exact step [] (fun _ _ => rfl) (rounds hcall (block hcall body) limits.rounds)
  | .define l f => exact leaf fun _ _ => rfl
  | .returnValue l none => exact leaf fun _ _ => rfl
  | .returnValue l (some value) =>
    rw [execStatement]
    refine step [.result] (fun _ _ => rfl) (bind trivial (expr hcall value) fun v => ?_)
    exact leaf fun _ _ => rfl
  | .importModule l name =>
    rw [execStatement]
    refine leaf fun k s => ?_
    rw [perform_bind_pure]
    rfl
  | .evaluate l value =>
    rw [execStatement]
    refine step [.discard] (fun _ _ => rfl) (bind trivial (expr hcall value) fun v => ?_)
    exact leaf fun _ _ => rfl

theorem arms (hcall : CarriesOutCalls limits world depth enter) {otherwise : Option Block}
    {last : Eval Flow}
    (hlast : CarriesOut limits world depth (.arms [] otherwise) [] .flow last)
    (branches : List Arm) : CarriesOut limits world depth (.arms branches otherwise) [] .flow
      (execArms world enter limits.rounds last branches) := by
  match branches with
  | [] => exact hlast
  | ⟨l, condition, body⟩ :: branches =>
    rw [execArms]
    refine step [.arm body branches otherwise] (fun _ _ => rfl)
      (bind trivial (expr hcall condition) fun v => ?_)
    cases hv : v.truthy with
    | false =>
      refine step [] (fun k s => ?_) (arms hcall hlast branches)
      simp [Config.step, Control.begin, Frame.resume, hv, Move.on]
    | true =>
      refine step [] (fun k s => ?_) (block hcall body)
      simp [Config.step, Control.begin, Frame.resume, hv, Move.on]

theorem last (hcall : CarriesOutCalls limits world depth enter) (otherwise : Option Block) :
    CarriesOut limits world depth (.arms [] otherwise) [] .flow
      (execElse world enter limits.rounds otherwise) := by
  match otherwise with
  | none => exact leaf fun _ _ => rfl
  | some b =>
    rw [execElse]
    exact step [] (fun _ _ => rfl) (block hcall b)

theorem block (hcall : CarriesOutCalls limits world depth enter) (b : Block) :
    CarriesOut limits world depth (.block b.statements) [] .flow
      (within ∅ (execBlock world enter limits.rounds b)) := by
  match b with
  | ⟨l, ss⟩ =>
    rw [execBlock]
    exact block_of_statements (statements hcall ss)

theorem statements (hcall : CarriesOutCalls limits world depth enter) (ss : List Statement) :
    CarriesOut limits world depth (.statements ss) [] .flow
      (execAll world enter limits.rounds ss) := by
  match ss with
  | [] => exact leaf fun _ _ => rfl
  | t :: ss =>
    rw [execAll]
    refine step [.behind ss] (fun _ _ => rfl) (bind trivial (statement hcall t) fun flow => ?_)
    cases flow with
    | next => exact step [] (fun _ _ => rfl) (statements hcall ss)
    | returned v => exact leaf fun _ _ => rfl

end

/-- The machine carries out every body of a function. -/
theorem bindings (l : Option Location) (f : Function) (bound : Table Value) :
    CarriesOut limits world depth (.bindings bound) [.call l f] .value
      (callFunction (enterBody world limits.rounds depth) l f bound) := by
  induction depth generalizing l f bound with
  | zero =>
    intro k s hk
    refine .head ?_ .refl
    have hlimit : ¬(activations k).length < limits.calls := by omega
    simp only [Config.step, Control.begin, List.singleton_append, Frame.resume, hlimit, if_false]
    rfl
  | succ depth ih =>
    intro k s hk
    have hlimit : (activations k).length < limits.calls := by omega
    have hbegin : Config.step limits world ⟨.bindings bound, [.call l f] ++ k, s⟩ =
        some ⟨.statements f.body.statements, [] ++ .activation l f s.locals :: k,
          s.inside (some bound)⟩ := by
      simp only [Config.step, Control.begin, List.singleton_append, Frame.resume, hlimit, if_true]
      rfl
    have hbody := statements ih f.body.statements (.activation l f s.locals :: k)
      (s.inside (some bound)) (by simp only [activations, List.length_cons]; omega)
    refine .head hbegin (hbody.trans (.head ?_ .refl))
    simp only [Config.step_activation, callFunction, enterBody, execBlock_eq]

end CarriesOut

/-! ## Runs -/

namespace Config

variable (limits : Limits) (world : World)

theorem leads_total {m m' m'' : Config} (h : Leads limits world m m')
    (h' : Leads limits world m m'') : Leads limits world m' m'' ∨ Leads limits world m'' m' :=
  Relation.ReflTransGen.total_of_right_unique
    (fun _ _ _ h h' => Option.some.inj (h.symm.trans h')) h h'

theorem finished_eq_some {m : Config} {r : Run} (h : m.finished? = some r) :
    ∃ s, (∃ flow, m = ⟨.flow flow, [], s⟩ ∧ r = ⟨flow.result, s.toInterpreter, s.output⟩) ∨
      ∃ why, m = ⟨.stop why, [], s⟩ ∧ r = ⟨why.result, s.toInterpreter, s.output⟩ := by
  obtain ⟨c, k, s⟩ := m
  cases k with
  | cons F k => cases c <;> simp [finished?] at h
  | nil =>
    cases c with
    | flow flow => exact ⟨s, .inl ⟨flow, rfl, (Option.some.inj h).symm⟩⟩
    | stop why => exact ⟨s, .inr ⟨why, rfl, (Option.some.inj h).symm⟩⟩
    | _ => simp [finished?] at h

theorem eq_of_finished {m m' : Config} {r : Run} (h : m.finished? = some r)
    (h' : Leads limits world m m') : m' = m := by
  have hnone : m.step limits world = none := by
    obtain ⟨s, ⟨flow, rfl, -⟩ | ⟨why, rfl, -⟩⟩ := finished_eq_some h <;> rfl
  obtain rfl | ⟨m'', hstep, -⟩ := Relation.ReflTransGen.cases_head h'
  · rfl
  · rw [hnone] at hstep
    exact nomatch hstep

/-- The machine comes to the end that the evaluator gives. -/
theorem start_leads (i : Interpreter) (program : Program) :
    ∃ m, Leads limits world (start i program) m ∧
      m.finished? = some (i.run limits world program) := by
  refine ⟨_, CarriesOut.statements CarriesOut.bindings program.statements [] i.start
    (Nat.zero_add limits.calls), ?_⟩
  unfold Interpreter.run Interpreter.execution
  cases hrun : (execAll world (enterBody world limits.rounds limits.calls) limits.rounds
      program.statements).run i.start with
  | ok flow s =>
    rw [perform_of_ok hrun]
    rfl
  | error why s =>
    rw [perform_of_error hrun]
    rfl

theorem exists_leads_run (i : Interpreter) (program : Program) :
    ∃ m, Leads limits world (start i program) m ∧
      (i.run limits world program).interpreter = m.state.toInterpreter := by
  obtain ⟨m, hleads, hrun⟩ := start_leads limits world i program
  refine ⟨m, hleads, ?_⟩
  obtain ⟨s, ⟨flow, rfl, heq⟩ | ⟨why, rfl, heq⟩⟩ := finished_eq_some hrun <;> rw [heq]

/-- Wherever the machine is, it comes to that end. -/
theorem leads_of_start {i : Interpreter} {program : Program} {m : Config}
    (h : Leads limits world (start i program) m) :
    ∃ m', Leads limits world m m' ∧ m'.finished? = some (i.run limits world program) := by
  obtain ⟨m', hend, hrun⟩ := start_leads limits world i program
  refine ⟨m', ?_, hrun⟩
  obtain hm | hm := leads_total limits world h hend
  · exact hm
  · rw [eq_of_finished limits world hrun hm]
    exact .refl

end Config

end KLang
