import KLang.Proofs.Machine.Change

/-!
# Which functions are called

A call is in the frames from where its function has been found until its body has been left: first
as a frame that waits for the arguments, then as an activation.

* `Config.Calls`: the calls in the frames have a property.
* `Config.called_of_leads`: each of them has begun with a call in the program, above the same
  frames.
* `Config.begun_of_leads`: where there is an activation, its body has been begun.
* `Config.known_of_leads`: a property of all declared functions is one of all functions that are
  called.
-/

namespace KLang

/-- The location and the function of the call that a frame belongs to. -/
def Frame.call? : Frame → Option (Option Location × Function)
  | .call l f | .activation l f _ => some (l, f)
  | _ => none

/-- A property of the calls that frames belong to, and of what is below them. -/
abbrev StackCalls (P : Option Location → Function → List Frame → Prop) : List Frame → Prop :=
  StackAll fun F k => ∀ l f, F.call? = some (l, f) → P l f k

variable {P : Option Location → Function → List Frame → Prop}

theorem StackCalls.append {fs k : List Frame} (hfs : ∀ F ∈ fs, F.call? = none)
    (hk : StackCalls P k) : StackCalls P (fs ++ k) := by
  refine StackAll.append (fun F hF k l f hcall => ?_) hk
  rw [hfs F hF] at hcall
  exact nomatch hcall

/-! ## Steps that begin calls -/

variable (limits : Limits) (world : World)

theorem Control.begin_calls {c : Control} {s : State} {move : Move}
    (h : c.begin limits s = some move) :
    (∀ F ∈ move.frames, F.call? = none) ∨
      ∃ l f es, c = .callee l (.function f) es ∧ move.frames = [.call l f] := by
  revert h
  fun_cases Control.begin limits s c <;> intro h <;>
    simp only [Option.some.injEq, reduceCtorEq] at h
  all_goals subst h
  -- an expression, a call of a function, and a statement
  case case1 e => cases e <;> simp [Expr.begin, Frame.call?]
  case case4 l f es _ => exact .inr ⟨l, f, es, rfl, rfl⟩
  case case9 t =>
    cases t with
    | returnValue l value => cases value <;> simp [Statement.begin, Frame.call?]
    | _ => simp [Statement.begin, Frame.call?]
  all_goals simp [Frame.call?]

theorem Frame.resume_calls (F : Frame) (depth : Nat) (s : State) (c : Control) :
    (∀ F' ∈ (F.resume limits world depth s c).frames, F'.call? = none) ∨
      ∃ l f outside s', F = .call l f ∧ F.resume limits world depth s c =
        ⟨.statements f.body.statements, [.activation l f outside], s'⟩ := by
  fun_cases Frame.resume limits world depth s F c
  -- the arguments of a call are there
  case case7 l f bound _ => exact .inr ⟨l, f, _, _, rfl, rfl⟩
  all_goals simp [Frame.call?]

theorem Expr.begin_callee {e : Expr} {s : State} {l : Option Location} {f : Function}
    {es : List Expr} (h : (e.begin s).control = .callee l (.function f) es) :
    ∃ name, e = .call l name es ∧ (resolve l name).verdict s = .ok (.function f) := by
  match e with
  | .number .. | .string .. | .unary .. | .binary .. => cases h
  | .variable .. | .step .. => exact absurd h (perform_control_ne (by simp) (by simp))
  | .call l' name es' =>
    simp only [begin, perform] at h
    cases hrun : (resolve l' name).run s with
    | ok callee s' =>
      rw [hrun] at h
      obtain ⟨rfl, rfl, rfl⟩ := Control.callee.inj h
      exact ⟨name, rfl, by rw [Eval.verdict, hrun]⟩
    | error why s' =>
      rw [hrun] at h
      cases h

theorem Statement.begin_ne_callee (t : Statement) (s : State) (l : Option Location) (f : Function)
    (es : List Expr) : (t.begin limits s).control ≠ .callee l (.function f) es := by
  cases t with
  | importModule l name => exact perform_control_ne (by simp) (by simp)
  | returnValue l value => cases value <;> simp [begin]
  | _ => simp [begin]

theorem Control.begin_callee {c : Control} {s : State} {move : Move} {l : Option Location}
    {f : Function} {es : List Expr} (h : c.begin limits s = some move)
    (hcallee : move.control = .callee l (.function f) es) :
    move.frames = [] ∧ ∃ name, c = .expr (.call l name es) ∧
      (resolve l name).verdict s = .ok (.function f) := by
  revert h
  fun_cases Control.begin limits s c <;> intro h <;>
    simp only [Option.some.injEq, reduceCtorEq] at h
  all_goals subst h
  -- an expression and a statement
  case case1 e =>
    obtain ⟨name, rfl, hresolve⟩ := e.begin_callee hcallee
    exact ⟨perform_frames .., name, rfl, hresolve⟩
  case case9 t => exact (t.begin_ne_callee limits s l f es hcallee).elim
  all_goals cases hcallee

theorem Frame.resume_ne_callee {F : Frame} {depth : Nat} {s : State} {c : Control}
    (l : Option Location) (f : Function) (es : List Expr) (h : c ≠ .callee l (.function f) es) :
    (F.resume limits world depth s c).control ≠ .callee l (.function f) es := by
  fun_cases Frame.resume limits world depth s F c
  all_goals first | exact h | exact perform_control_ne (by simp) (by simp) | simp

/-! ## The calls in the frames -/

namespace Config

/-- The calls that are resolved or in the frames have a property. -/
structure Calls (P : Option Location → Function → List Frame → Prop) (m : Config) : Prop where
  callee : ∀ l f es, m.control = .callee l (.function f) es → P l f m.frames
  frames : StackCalls P m.frames

variable {limits world} {m m' : Config}

theorem Calls.step (h : m.step limits world = some m') (hm : Calls P m)
    (hP : ∀ l name es f, m.control = .expr (.call l name es) →
      (resolve l name).verdict m.state = .ok (.function f) → P l f m.frames) : Calls P m' := by
  obtain ⟨c, k, s⟩ := m
  simp only [Config.step] at h
  split at h
  case h_1 move hmove =>
    obtain rfl := Option.some.inj h
    refine ⟨fun l f es hcallee => ?_, ?_⟩
    · obtain ⟨hframes, name, rfl, hresolve⟩ := Control.begin_callee limits hmove hcallee
      have hon : (move.on k).frames = k := by simp [Move.on, hframes]
      rw [hon]
      exact hP l name es f rfl hresolve
    · obtain hframes | ⟨l, f, es, rfl, hframes⟩ := Control.begin_calls limits hmove
      · exact StackCalls.append hframes hm.frames
      · change StackCalls P (move.frames ++ k)
        rw [hframes]
        refine ⟨fun l' f' hcall => ?_, hm.frames⟩
        obtain ⟨rfl, rfl⟩ := Prod.mk.inj (Option.some.inj hcall)
        exact hm.callee l f es rfl
  case h_2 hnone =>
    cases k with
    | nil => exact nomatch h
    | cons F k =>
      obtain rfl := Option.some.inj h
      refine ⟨fun l f es hcallee => ?_, ?_⟩
      · refine (F.resume_ne_callee limits world l f es ?_ hcallee).elim
        rintro rfl
        simp only [Control.begin] at hnone
        split at hnone <;> exact nomatch hnone
      · obtain hframes | ⟨l, f, outside, s', rfl, hmove⟩ :=
          F.resume_calls limits world (activations k).length s c
        · exact StackCalls.append hframes hm.frames.2
        · rw [hmove]
          exact ⟨hm.frames.1, hm.frames.2⟩

/-- The machine has met a call, below which are the given frames, and has found the function. -/
def Called (limits : Limits) (world : World) (m₀ : Config) (l : Option Location) (f : Function)
    (k : List Frame) : Prop :=
  ∃ name es s, Leads limits world m₀ ⟨.expr (.call l name es), k, s⟩ ∧
    (resolve l name).verdict s = .ok (.function f)

/-- Each call in the frames has begun with a call in the program. -/
theorem called_of_leads {i : Interpreter} {program : Program}
    (h : Leads limits world (start i program) m) :
    Calls (Called limits world (start i program)) m := by
  induction h with
  | refl => exact ⟨nofun, trivial⟩
  | @tail m m' hleads hstep ih =>
    refine ih.step hstep fun l name es f hcall hresolve => ?_
    obtain ⟨c, k, s⟩ := m
    obtain rfl : c = .expr (.call l name es) := hcall
    exact ⟨name, es, s, hleads, hresolve⟩

/-- The machine has begun the body of the function of an activation. -/
def Begun (limits : Limits) (world : World) (m₀ : Config) (F : Frame) (k : List Frame) : Prop :=
  ∀ l f outside, F = .activation l f outside →
    ∃ s, Leads limits world m₀ ⟨.statements f.body.statements, F :: k, s⟩

theorem Begun.of_call?_none {m₀ : Config} {F : Frame} (h : F.call? = none) (k : List Frame) :
    Begun limits world m₀ F k := by
  rintro l f outside rfl
  exact nomatch h

/-- The body of each activation has been begun there. -/
theorem begun_of_leads {m₀ : Config} (h : Leads limits world m₀ m) (hm₀ : m₀.frames = []) :
    StackAll (Begun limits world m₀) m.frames := by
  induction h with
  | refl =>
    rw [hm₀]
    trivial
  | @tail m m' hleads hstep ih =>
    obtain ⟨c, k, s⟩ := m
    have hnext := hleads.tail hstep
    simp only [Config.step] at hstep
    split at hstep
    case h_1 move hmove =>
      obtain rfl := Option.some.inj hstep
      obtain hframes | ⟨l, f, es, rfl, hframes⟩ := Control.begin_calls limits hmove
      · exact ih.append fun F hF => .of_call?_none (hframes F hF)
      · change StackAll _ (move.frames ++ k)
        rw [hframes]
        exact ⟨nofun, ih⟩
    case h_2 =>
      cases k with
      | nil => exact nomatch hstep
      | cons F k =>
        obtain rfl := Option.some.inj hstep
        obtain hframes | ⟨l, f, outside, s', rfl, hmove⟩ :=
          F.resume_calls limits world (activations k).length s c
        · exact ih.2.append fun F hF => .of_call?_none (hframes F hF)
        · rw [hmove] at hnext ⊢
          refine ⟨?_, ih.2⟩
          intro l' f' outside' hF
          obtain ⟨rfl, rfl, rfl⟩ := Frame.activation.inj hF
          exact ⟨s', hnext⟩

end Config

/-! ## The functions of the interpreter -/

theorem functions_of_resolve {l : Option Location} {name : Name} {s : State} {f : Function}
    (h : (resolve l name).verdict s = .ok (.function f)) :
    s.functions.get? name.base = some f := by
  rw [resolve, Eval.verdict_get_bind] at h
  split at h
  case h_1 m _ =>
    split at h
    · cases h
    · split at h <;> cases h
  case h_2 =>
    split at h
    case h_1 f' hf =>
      cases h
      exact hf
    case h_2 => split at h <;> cases h

namespace Config

/-- All functions of the interpreter have a property. -/
def Declared (D : Function → Prop) (s : State) : Prop :=
  ∀ name f, s.functions.get? name = some f → D f

variable {limits world} {D : Function → Prop}

theorem step_functions {m m' : Config} (h : m.step limits world = some m') :
    m'.state.functions = m.state.functions ∨ ∃ l f, m.control = .statement (.define l f) ∧
      m'.state.functions = m.state.functions.insert f.name f := by
  have hchanges := step_changes h
  change m'.state.toInterpreter.functions = _ ∨ ∃ l f, _ ∧ m'.state.toInterpreter.functions = _
  generalize m'.state.toInterpreter = i at hchanges
  cases hchanges with
  | define l f k s => exact .inr ⟨l, f, rfl, rfl⟩
  | _ => exact .inl rfl

theorem owner_cases {P : Function → Prop} {program : List Statement} {k : List Frame}
    (h : StackCalls (fun _ f _ => P f) k) :
    owner program k = program ∨ ∃ f, P f ∧ owner program k = f.body.statements := by
  induction k with
  | nil => exact .inl rfl
  | cons F k ih =>
    cases F with
    | activation l f outside => exact .inr ⟨f, h.1 l f rfl, rfl⟩
    | _ => exact ih h.2

/-- A property that the functions of the interpreter have, and all functions declared in the program
or in the body of such a function, is one of all functions that are there or are called. -/
theorem known_of_leads {i : Interpreter} {program : Program} {m : Config}
    (hinterpreter : Declared D i.start)
    (hprogram : ∀ l f, HasStatement program.statements (.define l f) → D f)
    (hbody : ∀ f, D f → ∀ l f', HasStatement f.body.statements (.define l f') → D f')
    (h : Leads limits world (start i program) m) :
    Declared D m.state ∧ Calls (fun _ f _ => D f) m := by
  induction h with
  | refl => exact ⟨hinterpreter, nofun, trivial⟩
  | @tail m m' hleads hstep ih =>
    obtain ⟨hdeclared, hcalls⟩ := ih
    refine ⟨?_, hcalls.step hstep fun l name es f _ hresolve =>
      hdeclared name.base f (functions_of_resolve hresolve)⟩
    obtain hsame | ⟨l, f, hdefine, hstate⟩ := step_functions hstep
    · unfold Declared
      rwa [hsame]
    · have hstatement : HasStatement (owner program.statements m.frames) (.define l f) := by
        have hcontrol := (coherent_of_leads hleads).control
        rwa [hdefine] at hcontrol
      have hf : D f := by
        obtain howner | ⟨g, hg, howner⟩ := owner_cases hcalls.frames <;> rw [howner] at hstatement
        · exact hprogram l f hstatement
        · exact hbody g hg l f hstatement
      intro name f' hf'
      rw [hstate, Table.get?_insert] at hf'
      split at hf'
      · exact Option.some.inj hf' ▸ hf
      · exact hdeclared name f' hf'

end Config

end KLang
