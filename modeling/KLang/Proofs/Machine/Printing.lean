import KLang.Proofs.Machine.Change

/-!
# What a step writes

A line is printed in the step that ends a print statement and in no other, so none is printed in the
step in which an error comes up. What is written to the error stream are the warnings of plots that
could not be drawn.

* `Quiet`: nothing has been printed, and nothing but warnings has been written.
* `Config.step_writes`: a step is quiet, or it prints a line and the next statement follows.
* `Config.warned_of_leads`: in a run, only warnings come to the error stream.
-/

namespace KLang

/-- The warning that a plotting command could not be started. -/
def warningLine (command : String) : String :=
  "warning: " ++ quoted command ++ " not found, cannot plot\n"

/-- More has been written to the error stream, and it consists of warnings. -/
def Warned (s s' : State) : Prop :=
  ∃ commands : List String,
    s'.output.stderr = s.output.stderr ++ String.join (commands.map warningLine)

theorem Warned.refl (s : State) : Warned s s := ⟨[], by simp⟩

theorem Warned.trans (s s' s'' : State) (h : Warned s s') (h' : Warned s' s'') : Warned s s'' := by
  obtain ⟨commands, h⟩ := h
  obtain ⟨commands', h'⟩ := h'
  refine ⟨commands ++ commands', ?_⟩
  rw [h', h, List.map_append, String.append_assoc, String.join_append]

/-- Nothing has been printed, and only warnings have been written to the error stream. -/
structure Quiet (s s' : State) : Prop where
  stdout : s'.output.stdout = s.output.stdout
  warned : Warned s s'

namespace Quiet

theorem of_output {s s' : State} (h : s'.output = s.output) : Quiet s s' := by
  refine ⟨by rw [h], [], ?_⟩
  simp [h]

theorem sequential : Sequential (Reaches Quiet) :=
  .reaches (fun _ => of_output rfl) fun s s' s'' h h' =>
    ⟨h'.stdout.trans h.stdout, .trans s s' s'' h.warned h'.warned⟩

theorem store (s : State) (name : String) (v : Value) : Quiet s (s.store name v) := by
  refine of_output ?_
  unfold State.store
  repeat' split
  all_goals rfl

theorem evalName (l : Option Location) (name : Name) : Reaches Quiet (evalName l name) := by
  intro s
  rw [Eval.after_evalName]
  exact of_output rfl

theorem resolve (l : Option Location) (name : Name) : Reaches Quiet (resolve l name) := by
  intro s
  rw [Eval.after_resolve]
  exact of_output rfl

theorem evalStep (l : Option Location) (op : PostfixOperator) (name : String) :
    Reaches Quiet (evalStep l op name) := by
  intro s
  obtain heq | ⟨v, -, heq⟩ := Eval.after_evalStep l op name s <;> rw [heq]
  · exact of_output rfl
  · exact store s name v

theorem assignTo (l : Option Location) (target : Name) (value : Value) :
    Reaches Quiet (assignTo l target value) := by
  intro s
  obtain heq | ⟨-, heq⟩ := Eval.after_assignTo l target value s <;> rw [heq]
  · exact of_output rfl
  · exact store s target.base value

theorem importModule (l : Option Location) (name : String) :
    Reaches Quiet (importModule l name) := by
  intro s
  obtain heq | ⟨library, -, heq⟩ := Eval.after_importModule l name s <;> rw [heq] <;>
    exact of_output rfl

theorem declare (name : String) (value : Value) :
    Reaches Quiet (modify (·.declare name value) : Eval Unit) := by
  rintro ⟨i, locals, output⟩
  cases locals <;> exact of_output rfl

theorem drawPlot (world : World) (l : Option Location) (script : List String) :
    Reaches Quiet (drawPlot world l script) := by
  unfold KLang.drawPlot
  split
  · rename_i command _
    intro s
    change Quiet s { s with output := s.output.plot world.canPlot command script }
    cases world.canPlot with
    | true => exact ⟨rfl, .refl s⟩
    | false =>
      refine ⟨rfl, [" ".intercalate command], ?_⟩
      simp [Output.plot, warningLine, String.append_assoc]
  · exact sequential.fault l _

theorem callBuiltin (world : World) (l : Option Location) (b : Builtin) (vs : List Value) :
    Reaches Quiet (callBuiltin world l b vs) :=
  sequential.callBuiltin (drawPlot world l) b vs

end Quiet

/-! ## Steps -/

section steps

variable {limits : Limits} {world : World}

theorem Quiet.perform {α : Type} {x : Eval α} (h : Reaches Quiet x) (give : α → Control)
    (s : State) : Quiet s (perform x give s).state := by
  rw [perform_state]
  exact h s

theorem Expr.begin_quiet (e : Expr) (s : State) : Quiet s (e.begin s).state := by
  match e with
  | .number .. | .string .. | .unary .. | .binary .. => exact .of_output rfl
  | .variable l name => exact .perform (.evalName l name) .value s
  | .call l name es => exact .perform (.resolve l name) (.callee l · es) s
  | .step l op name => exact .perform (.evalStep l op name) .value s

theorem Statement.begin_quiet (t : Statement) (s : State) :
    Quiet s (t.begin limits s).state := by
  cases t with
  | returnValue l value => cases value <;> exact .of_output rfl
  | importModule l name => exact .perform (.importModule l name) (fun _ => .flow .next) s
  | _ => exact .of_output rfl

theorem Control.begin_quiet {c : Control} {s : State} {move : Move}
    (h : c.begin limits s = some move) : Quiet s move.state := by
  revert h
  fun_cases Control.begin limits s c <;> intro h <;>
    simp only [Option.some.injEq, reduceCtorEq] at h
  all_goals subst h
  -- an expression and a statement
  case case1 e => exact e.begin_quiet s
  case case9 t => exact t.begin_quiet s
  all_goals exact .of_output rfl

theorem Frame.resume_writes (F : Frame) (depth : Nat) (s : State) (c : Control) :
    Quiet s (F.resume limits world depth s c).state ∨
      ∃ line, F.resume limits world depth s c = ⟨.flow .next, [], s.printLine line⟩ := by
  have hof {α : Type} (l : Option Location) (r : Except Fault α) := Quiet.sequential.ofExcept l r
  fun_cases Frame.resume limits world depth s F c
  -- a builtin function, a declaration, an assignment, a print, and the end of a function
  case case5 l b vs => exact .inl (.perform (.callBuiltin world l b vs) .value s)
  case case9 l kind name v =>
    have hdeclare := Quiet.sequential.bind (hof l (v.coerce kind)) (.declare name)
    exact .inl (.perform hdeclare (fun _ => .flow .next) s)
  case case10 l target v => exact .inl (.perform (.assignTo l target v) (fun _ => .flow .next) s)
  case case11 vs => exact .inr ⟨_, rfl⟩
  case case21 l f outside flow =>
    rw [perform_state]
    have hend := hof l (flow.value.coerce f.kind) (s.inside outside)
    exact .inl ⟨hend.stdout, hend.warned⟩
  all_goals first | exact .inl (.of_output rfl) | exact .inl (.perform (hof _ _) _ s)

end steps

namespace Config

variable {limits : Limits} {world : World} {m m' : Config}

/-- A step prints nothing, or it prints a line and the next statement follows. -/
theorem step_writes (h : m.step limits world = some m') :
    Quiet m.state m'.state ∨
      m'.control = .flow .next ∧ ∃ line, m'.state = m.state.printLine line := by
  obtain ⟨c, k, s⟩ := m
  simp only [step] at h
  split at h
  case h_1 move hmove =>
    obtain rfl := Option.some.inj h
    exact .inl (Control.begin_quiet hmove)
  case h_2 =>
    cases k with
    | nil => exact nomatch h
    | cons F k =>
      obtain rfl := Option.some.inj h
      obtain hquiet | ⟨line, heq⟩ := F.resume_writes (activations k).length s c
      · exact .inl hquiet
      · rw [heq]
        exact .inr ⟨rfl, line, rfl⟩

theorem stdout_of_step_error {e : RuntimeError} (h : m.step limits world = some m')
    (he : m'.control = .stop (.error e)) : m'.state.output.stdout = m.state.output.stdout := by
  obtain hquiet | ⟨hnext, -⟩ := step_writes h
  · exact hquiet.stdout
  · rw [he] at hnext
    cases hnext

theorem warned_of_leads (h : Leads limits world m m') : Warned m.state m'.state := by
  induction h with
  | refl => exact .refl _
  | tail _ hstep ih =>
    refine .trans _ _ _ ih ?_
    obtain hquiet | ⟨-, line, heq⟩ := step_writes hstep
    · exact hquiet.warned
    · rw [heq]
      exact .refl _

end Config

end KLang
