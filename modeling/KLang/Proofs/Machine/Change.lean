import KLang.Proofs.Evaluation.Scope
import KLang.Proofs.Machine.Body

/-!
# What a step changes in the interpreter

Most steps leave the interpreter as it is. The others change one entry of one of its tables, and
there are four of them.

* `Config.Changes`: the interpreters that the machine can come to in one step. A declaration binds a
  global variable only at the top level, and only modules of the registry are imported.
* `Config.step_changes`: every step leads to one of them.
-/

namespace KLang

/-! ## The parts that touch the state -/

/-- The interpreter is the same. -/
def SameInterpreter (s s' : State) : Prop := s'.toInterpreter = s.toInterpreter

namespace SameInterpreter

theorem sequential : Sequential (Reaches SameInterpreter) :=
  .reaches (fun _ => rfl) fun _ _ _ h h' => h'.trans h

theorem evalName (l : Option Location) (name : Name) :
    Reaches SameInterpreter (evalName l name) := by
  intro s
  rw [Eval.after_evalName]
  rfl

theorem resolve (l : Option Location) (name : Name) :
    Reaches SameInterpreter (resolve l name) := by
  intro s
  rw [Eval.after_resolve]
  rfl

theorem callBuiltin (world : World) (l : Option Location) (b : Builtin) (vs : List Value) :
    Reaches SameInterpreter (callBuiltin world l b vs) := by
  refine sequential.callBuiltin (fun script s => ?_) b vs
  obtain ⟨output, h⟩ := Eval.after_drawPlot world l script s
  rw [h]
  rfl

end SameInterpreter

namespace State

theorem toInterpreter_declare (s : State) (name : String) (v : Value) :
    (s.declare name v).toInterpreter = s.toInterpreter ∨
      s.locals = none ∧ (s.declare name v).toInterpreter = s.toInterpreter.letGlobal name v := by
  obtain ⟨i, locals, output⟩ := s
  cases locals with
  | none => exact .inr ⟨rfl, rfl⟩
  | some t => exact .inl rfl

theorem toInterpreter_store {s : State} {name : String} (h : (s.lookup? name).isSome) (v : Value) :
    (s.store name v).toInterpreter = s.toInterpreter ∨ name ∈ s.globals.names ∧
      (s.store name v).toInterpreter = s.toInterpreter.letGlobal name v := by
  rw [lookup?_isSome] at h
  obtain ⟨i, locals, output⟩ := s
  cases locals with
  | none => exact .inr ⟨by simpa using h, rfl⟩
  | some t =>
    unfold store
    by_cases ht : t.contains name = true
    · simp only [ht, if_true, true_or]
    · simp only [ht]
      have hname : name ∈ t.names ∨ name ∈ i.globals.names := by simpa using h
      exact .inr ⟨hname.resolve_left (mt (t.contains_iff name).mpr ht), rfl⟩

end State

/-! ## The changes of a step -/

namespace Config

/-- The interpreters that the machine can come to in one step. -/
inductive Changes : Config → Interpreter → Prop
  | nothing (m : Config) : Changes m m.state.toInterpreter
  | store {m : Config} {name : String} (h : name ∈ m.state.globals.names) (v : Value) :
      Changes m (m.state.letGlobal name v)
  | declare (l : Option Location) {kind : Kind} (name : String) {v w : Value} (k : List Frame)
      {s : State} (hv : v.coerce kind = .ok w) (hs : s.locals = none) :
      Changes ⟨.value v, .declare l kind name :: k, s⟩ (s.letGlobal name w)
  | define (l : Option Location) (f : Function) (k : List Frame) (s : State) :
      Changes ⟨.statement (.define l f), k, s⟩ (s.define f).toInterpreter
  | addImport (l : Option Location) {name : String} {library : Library} (k : List Frame) (s : State)
      (h : Library.find? name = some library) :
      Changes ⟨.statement (.importModule l name), k, s⟩ (s.addImport name library).toInterpreter

variable {m : Config}

theorem Changes.of_same {s : State} (h : s.toInterpreter = m.state.toInterpreter) :
    m.Changes s.toInterpreter :=
  h ▸ .nothing m

theorem Changes.of_store {name : String} (h : (m.state.lookup? name).isSome) (v : Value) :
    m.Changes (m.state.store name v).toInterpreter := by
  obtain hsame | ⟨hname, hstore⟩ := State.toInterpreter_store h v
  · exact .of_same hsame
  · rw [hstore]
    exact .store hname v

theorem Changes.perform {α : Type} {x : Eval α} (h : Reaches SameInterpreter x)
    (give : α → Control) : m.Changes (perform x give m.state).state.toInterpreter := by
  rw [perform_state]
  exact .of_same (h m.state)

variable (limits : Limits) (world : World)

theorem begin_expr_changes (e : Expr) (k : List Frame) (s : State) :
    Changes ⟨.expr e, k, s⟩ (e.begin s).state.toInterpreter := by
  match e with
  | .number .. | .string .. | .unary .. | .binary .. => exact .of_same rfl
  | .variable l name => exact .perform (.evalName l name) .value
  | .call l name es => exact .perform (.resolve l name) (.callee l · es)
  | .step l op name =>
    simp only [Expr.begin, perform_state]
    obtain heq | ⟨v, hname, heq⟩ := Eval.after_evalStep l op name s <;> rw [heq]
    · exact .of_same rfl
    · exact .of_store hname v

theorem begin_statement_changes (t : Statement) (k : List Frame) (s : State) :
    Changes ⟨.statement t, k, s⟩ (t.begin limits s).state.toInterpreter := by
  cases t with
  | define l f => exact .define l f k s
  | returnValue l value => cases value <;> exact .of_same rfl
  | importModule l name =>
    simp only [Statement.begin, perform_state]
    obtain heq | ⟨library, hlibrary, heq⟩ := Eval.after_importModule l name s <;> rw [heq]
    · exact .of_same rfl
    · exact .addImport l k s hlibrary
  | _ => exact .of_same rfl

theorem begin_changes {c : Control} {s : State} {move : Move} (h : c.begin limits s = some move)
    (k : List Frame) : Changes ⟨c, k, s⟩ move.state.toInterpreter := by
  revert h
  fun_cases Control.begin limits s c <;> intro h <;>
    simp only [Option.some.injEq, reduceCtorEq] at h
  all_goals subst h
  -- an expression and a statement
  case case1 e => exact begin_expr_changes e k s
  case case9 t => exact begin_statement_changes limits t k s
  all_goals exact .of_same rfl

theorem resume_declare_changes (l : Option Location) (kind : Kind) (name : String) (v : Value)
    (depth : Nat) (k : List Frame) (s : State) :
    Changes ⟨.value v, .declare l kind name :: k, s⟩
      ((Frame.declare l kind name).resume limits world depth s (.value v)).state.toInterpreter := by
  simp only [Frame.resume, perform_state]
  cases hv : v.coerce kind with
  | error f => exact .of_same rfl
  | ok w =>
    change Changes _ (s.declare name w).toInterpreter
    obtain hsame | ⟨hs, hdeclare⟩ := s.toInterpreter_declare name w
    · exact .of_same hsame
    · rw [hdeclare]
      exact .declare l name k hv hs

theorem resume_assign_changes (l : Option Location) (target : Name) (v : Value) (depth : Nat)
    (k : List Frame) (s : State) :
    Changes ⟨.value v, .assign l target :: k, s⟩
      ((Frame.assign l target).resume limits world depth s (.value v)).state.toInterpreter := by
  simp only [Frame.resume, perform_state]
  obtain heq | ⟨hname, heq⟩ := Eval.after_assignTo l target v s <;> rw [heq]
  · exact .of_same rfl
  · exact .of_store hname v

theorem resume_changes (F : Frame) (depth : Nat) (s : State) (c : Control) (k : List Frame) :
    Changes ⟨c, F :: k, s⟩ (F.resume limits world depth s c).state.toInterpreter := by
  have hof {α : Type} (l : Option Location) (r : Except Fault α) :=
    SameInterpreter.sequential.ofExcept l r
  fun_cases Frame.resume limits world depth s F c
  -- a builtin function, a declaration, an assignment, and the end of a function
  case case5 l b vs => exact .perform (.callBuiltin world l b vs) .value
  case case9 l kind name v => exact resume_declare_changes limits world l kind name v depth k s
  case case10 l target v => exact resume_assign_changes limits world l target v depth k s
  case case21 l f outside flow =>
    rw [perform_state]
    exact .of_same (hof l _ (s.inside outside))
  all_goals first | exact .of_same rfl | exact .perform (hof _ _) _

variable {limits world}

/-- Every step leaves the interpreter as it is or changes one entry of one table. -/
theorem step_changes {m' : Config} (h : m.step limits world = some m') :
    m.Changes m'.state.toInterpreter := by
  obtain ⟨c, k, s⟩ := m
  simp only [step] at h
  split at h
  case h_1 move hmove =>
    obtain rfl := Option.some.inj h
    exact begin_changes limits hmove k
  case h_2 =>
    cases k with
    | nil => exact nomatch h
    | cons F k =>
      obtain rfl := Option.some.inj h
      exact resume_changes limits world F _ s c k

end Config

end KLang
