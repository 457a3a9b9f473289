import KLang.Proofs.Evaluation.Effect
import KLang.Proofs.Parsing.Relocation
import KLang.Proofs.Table

/-!
# Evaluations at other locations

Locations are put into errors and are never looked at. So a program with its nodes moved does the
same, and what it leaves are the same errors and functions, moved in the same way.

* `Stop.relocate`, `State.relocate`: stops and states with every location changed by a function.
* `Moves`: from each relocated state, an evaluation does what another one does, relocated; with a
  rule for each way to put evaluations together.
* `Moves.evalExpr`, `Moves.execStatement`, `Moves.enterBody`: relocated expressions, statements and
  bodies.
-/

namespace KLang

variable (f : Option Location → Option Location)

/-! ## Relocated stops and states -/

/-- The call with its location changed. -/
def CallSite.relocate (site : CallSite) : CallSite := { site with location := f site.location }

/-- The error with its locations changed. -/
def RuntimeError.relocate (e : RuntimeError) : RuntimeError :=
  ⟨e.fault, f e.location, e.trace.map (CallSite.relocate f)⟩

/-- The stop with its locations changed. -/
def Stop.relocate : Stop → Stop
  | .error e => .error (e.relocate f)
  | .callLimit => .callLimit
  | .roundLimit => .roundLimit

/-- The interpreter with the locations in its functions changed. -/
def Interpreter.relocate (i : Interpreter) : Interpreter :=
  { i with functions := i.functions.map (Function.relocate f) }

/-- The state with the locations in its functions changed. -/
def State.relocate (s : State) : State :=
  { s with toInterpreter := s.toInterpreter.relocate f }

/-- What a call is resolved to, with its locations changed. -/
def Callee.relocate : Callee → Callee
  | .function fn => .function (fn.relocate f)
  | .builtin b => .builtin b

namespace State

variable {f} (s : State)

theorem relocate_declare (name : String) (v : Value) :
    (s.relocate f).declare name v = (s.declare name v).relocate f := by
  obtain ⟨i, locals, output⟩ := s
  cases locals <;> rfl

theorem relocate_store (name : String) (v : Value) :
    (s.relocate f).store name v = (s.store name v).relocate f := by
  obtain ⟨i, locals, output⟩ := s
  cases locals with
  | none => rfl
  | some t =>
    by_cases h : t.contains name <;> simp [store, relocate, Interpreter.relocate, h]

@[simp] theorem imported_relocate : (s.relocate f).imported = s.imported := rfl

@[simp] theorem lookup?_relocate (name : String) :
    (s.relocate f).lookup? name = s.lookup? name := rfl

@[simp] theorem constant?_relocate (name : String) :
    (s.relocate f).constant? name = s.constant? name := rfl

@[simp] theorem builtin?_relocate (name : String) :
    (s.relocate f).builtin? name = s.builtin? name := rfl

@[simp] theorem unassignable_relocate (name : String) :
    (s.relocate f).unassignable name = s.unassignable name := rfl

@[simp] theorem function?_relocate (name : String) :
    (s.relocate f).functions.get? name = (s.functions.get? name).map (Function.relocate f) :=
  Table.get?_map _ _ _

theorem relocate_define (fn : Function) :
    (s.relocate f).define (fn.relocate f) = (s.define fn).relocate f := by
  simp [define, relocate, Interpreter.relocate, Table.map_insert, Function.name_relocate]

end State

/-! ## Relocated evaluations -/

/-- From each relocated state, the second evaluation gives what the first one does, changed by `g`,
or stops for the same reason, and comes to the relocated state. -/
def Moves {α β : Type} (g : α → β) (x : Eval α) (x' : Eval β) : Prop :=
  ∀ s : State,
    x'.verdict (s.relocate f) = ((x.verdict s).map g).mapError (Stop.relocate f) ∧
      x'.after (s.relocate f) = (x.after s).relocate f

/-- To enter a relocated function in the second way does what to enter the function in the first way
does. -/
def MovesBodies (enter enter' : Enter) : Prop :=
  ∀ fn bindings, Moves f id (enter fn bindings) (enter' (fn.relocate f) bindings)

namespace Moves

variable {f} {α β γ δ : Type} {g : α → β} {h : γ → δ}

theorem pure (g : α → β) (a : α) : Moves f g (pure a) (pure (g a)) := fun _ => ⟨rfl, rfl⟩

theorem stop (g : α → β) (why : Stop) : Moves f g (throw why) (throw (why.relocate f)) :=
  fun _ => ⟨rfl, rfl⟩

theorem bind {x : Eval α} {x' : Eval β} {k : α → Eval γ} {k' : β → Eval δ} (hx : Moves f g x x')
    (hk : ∀ a, Moves f h (k a) (k' (g a))) : Moves f h (x >>= k) (x' >>= k') := by
  intro s
  obtain ⟨hverdict, hafter⟩ := hx s
  rw [Eval.verdict_bind, Eval.verdict_bind, hverdict]
  cases hs : x.verdict s with
  | ok a =>
    rw [hs] at hverdict
    rw [Eval.after_bind_of_ok hs, Eval.after_bind_of_ok hverdict, hafter]
    exact hk a _
  | error why =>
    rw [hs] at hverdict
    rw [Eval.after_bind_of_error hs, Eval.after_bind_of_error hverdict, hafter]
    exact ⟨rfl, rfl⟩

theorem get_bind {k : State → Eval γ} {k' : State → Eval δ}
    (hk : ∀ s, Moves f h (k s) (k' (s.relocate f))) : Moves f h (get >>= k) (get >>= k') :=
  fun s => hk s s

theorem modify {m m' : State → State} (hm : ∀ s, m' (s.relocate f) = (m s).relocate f) :
    Moves f id (modify m : Eval Unit) (modify m') :=
  fun s => ⟨rfl, hm s⟩

theorem fault (g : α → β) (l : Option Location) (why : Fault) :
    Moves f g (Eval.fault l why) (Eval.fault (f l) why) :=
  stop g _

theorem ofExcept (l : Option Location) (r : Except Fault α) :
    Moves f id (Eval.ofExcept l r) (Eval.ofExcept (f l) r) := by
  cases r with
  | ok a => exact pure id a
  | error why => exact fault id l why

/-! ### The parts that touch the state -/

theorem evalName (l : Option Location) (name : Name) :
    Moves f id (evalName l name) (evalName (f l) name) := by
  refine get_bind fun s => ?_
  simp only [State.imported_relocate, State.lookup?_relocate, State.constant?_relocate]
  repeat' split
  all_goals first | exact fault _ _ _ | exact pure _ _

theorem resolve (l : Option Location) (name : Name) :
    Moves f (Callee.relocate f) (resolve l name) (resolve (f l) name) := by
  obtain ⟨module, base⟩ := name
  refine get_bind fun s => ?_
  simp only [State.imported_relocate, State.builtin?_relocate, State.function?_relocate]
  cases module with
  | some m =>
    dsimp only
    repeat' split
    all_goals first | exact fault _ _ _ | exact pure _ _
  | none =>
    cases s.functions.get? base with
    | some fn => exact pure _ _
    | none =>
      dsimp only [Option.map_none]
      split
      · exact fault _ _ _
      · exact pure _ _

theorem evalStep (l : Option Location) (op : PostfixOperator) (name : String) :
    Moves f id (evalStep l op name) (evalStep (f l) op name) := by
  refine get_bind fun s => ?_
  simp only [State.lookup?_relocate, State.unassignable_relocate]
  split
  · exact fault _ _ _
  · exact bind (modify fun s => s.relocate_store _ _) fun _ => pure _ _
  · exact fault _ _ _

theorem assignTo (l : Option Location) (target : Name) (value : Value) :
    Moves f id (assignTo l target value) (assignTo (f l) target value) := by
  unfold KLang.assignTo
  split
  · exact fault _ _ _
  · refine get_bind fun s => ?_
    simp only [State.lookup?_relocate, State.unassignable_relocate]
    split
    · exact fault _ _ _
    · exact modify fun s => s.relocate_store _ _

theorem importModule (l : Option Location) (name : String) :
    Moves f id (importModule l name) (importModule (f l) name) := by
  unfold KLang.importModule
  split
  · exact fault _ _ _
  · exact modify fun s => rfl

theorem callBuiltin (world : World) (l : Option Location) (b : Builtin) (values : List Value) :
    Moves f id (callBuiltin world l b values) (callBuiltin world (f l) b values) := by
  have hplot (script : List String) :
      Moves f id (drawPlot world l script) (drawPlot world (f l) script) := by
    unfold drawPlot
    split
    · exact modify fun s => rfl
    · exact fault _ _ _
  unfold KLang.callBuiltin
  dsimp only
  split
  · exact fault _ _ _
  · split
    · exact fault _ _ _
    · exact ofExcept _ _
    · exact bind (hplot _) fun _ => ofExcept _ _

theorem tracing (site : CallSite) {body body' : Eval Flow} (hbody : Moves f id body body') :
    Moves f id (tracing site body) (tracing (site.relocate f) body') := by
  intro s
  obtain ⟨hverdict, hafter⟩ := hbody s
  rw [Eval.verdict_tracing, Eval.verdict_tracing, Eval.after_tracing, Eval.after_tracing, hverdict]
  refine ⟨?_, hafter⟩
  cases body.verdict s with
  | ok flow => rfl
  | error why => cases why <;> simp [Except.map, Except.mapError, Stop.through, Stop.relocate,
      RuntimeError.relocate]

theorem within (bindings : Table Value) {body body' : Eval Flow} (hbody : Moves f id body body') :
    Moves f id (within bindings body) (within bindings body') := by
  intro s
  obtain ⟨hverdict, hafter⟩ := hbody (s.inside (some bindings))
  rw [Eval.verdict_within, Eval.verdict_within, Eval.after_within, Eval.after_within]
  exact ⟨hverdict, congrArg (State.inside · s.locals) hafter⟩

theorem repeatWhile {condition condition' : Eval Value} {body body' : Eval Flow}
    (hcondition : Moves f id condition condition') (hbody : Moves f id body body')
    (rounds : Nat) : Moves f id (repeatWhile condition body rounds)
      (repeatWhile condition' body' rounds) := by
  induction rounds with
  | zero => exact stop _ _
  | succ rounds ih =>
    refine bind hcondition fun v => ?_
    dsimp only [id]
    split
    · refine bind hbody fun flow => ?_
      cases flow with
      | next => exact ih
      | returned v => exact pure _ _
    · exact pure _ _

/-! ### Expressions -/

variable {enter enter' : Enter}

theorem callFunction (henter : MovesBodies f enter enter') (l : Option Location) (fn : Function)
    (arguments : Table Value) :
    Moves f id (callFunction enter l fn arguments)
      (callFunction enter' (f l) (fn.relocate f) arguments) := by
  have hbody := tracing ⟨fn.name, l⟩ (henter fn arguments)
  obtain ⟨kind, name, parameters, body⟩ := fn
  exact bind hbody fun flow => ofExcept _ _

mutual

/-- Relocated expressions have the same values. -/
theorem evalExpr (world : World) (henter : MovesBodies f enter enter') (e : Expr) :
    Moves f id (evalExpr world enter e) (evalExpr world enter' (e.relocate f)) := by
  match e with
  | .number .. | .string .. => exact pure _ _
  | .variable l name => exact evalName l name
  | .unary l op e =>
    rw [Expr.relocate]
    exact bind (evalExpr world henter e) fun v => ofExcept _ _
  | .binary l op left right =>
    rw [Expr.relocate]
    refine bind (evalExpr world henter left) fun a => ?_
    exact bind (evalExpr world henter right) fun b => ofExcept _ _
  | .step l op name => exact evalStep l op name
  | .call l name arguments =>
    rw [Expr.relocate]
    refine bind (resolve l name) fun callee => ?_
    cases callee with
    | builtin b =>
      exact bind (evalAll world henter arguments) fun values => callBuiltin world l b values
    | function fn =>
      have hcallee (bindings : Table Value) := callFunction henter l fn bindings
      obtain ⟨kind, base, parameters, body⟩ := fn
      dsimp only [Callee.relocate, Function.relocate]
      rw [Expr.length_relocateAll, List.length_map]
      by_cases hcount : arguments.length ≠ parameters.length
      · rw [if_pos hcount, if_pos hcount]
        exact fault _ _ _
      · rw [if_neg hcount, if_neg hcount]
        exact bind (evalArguments world henter parameters arguments ∅) hcallee

theorem evalAll (world : World) (henter : MovesBodies f enter enter') (es : List Expr) :
    Moves f id (evalAll world enter es) (evalAll world enter' (Expr.relocateAll f es)) := by
  match es with
  | [] => exact pure _ _
  | e :: es =>
    exact bind (evalExpr world henter e) fun v => bind (evalAll world henter es) fun vs => pure _ _

theorem evalArguments (world : World) (henter : MovesBodies f enter enter')
    (parameters : List Parameter) (arguments : List Expr) (bound : Table Value) :
    Moves f id (evalArguments world enter parameters arguments bound)
      (evalArguments world enter' (parameters.map (Parameter.relocate f))
        (Expr.relocateAll f arguments) bound) := by
  match arguments, parameters with
  | [], _ | _ :: _, [] => exact pure _ _
  | e :: es, p :: ps =>
    refine bind (evalExpr world henter e) fun v => ?_
    rw [Expr.location_relocate]
    exact bind (ofExcept _ _) fun v => evalArguments world henter ps es _

end

/-! ### Statements -/

theorem evalLine (world : World) (henter : MovesBodies f enter enter') (items : List Expr) :
    Moves f id (evalLine world enter items) (evalLine world enter' (Expr.relocateAll f items)) :=
  bind (evalAll world henter items) fun _ => pure _ _

mutual

/-- Relocated statements do the same. -/
theorem execStatement (world : World) (henter : MovesBodies f enter enter') (rounds : Nat)
    (s : Statement) :
    Moves f id (execStatement world enter rounds s)
      (execStatement world enter' rounds (s.relocate f)) := by
  match s with
  | .declare l kind name e =>
    refine bind (evalExpr world henter e) fun v => bind (ofExcept l _) fun v => ?_
    exact bind (modify fun s => s.relocate_declare _ _) fun _ => pure _ _
  | .assign l l' target e =>
    exact bind (evalExpr world henter e) fun v => bind (assignTo l target v) fun _ => pure _ _
  | .print l items =>
    refine bind (evalLine world henter items) fun line => ?_
    exact bind (modify fun s => rfl) fun _ => pure _ _
  | .branch l arms otherwise =>
    rw [Statement.relocate_branch]
    exact execArms world henter rounds (execElse world henter rounds otherwise) arms
  | .loop l condition body =>
    have hbody := within ∅ (execBlock world henter rounds body)
    exact repeatWhile (evalExpr world henter condition) hbody rounds
  | .define l fn =>
    exact bind (modify fun s => s.relocate_define fn) fun _ => pure _ _
  | .returnValue l none => exact pure _ _
  | .returnValue l (some e) => exact bind (evalExpr world henter e) fun v => pure _ _
  | .importModule l name => exact bind (importModule l name) fun _ => pure _ _
  | .evaluate l e => exact bind (evalExpr world henter e) fun v => pure _ _

theorem execArms (world : World) (henter : MovesBodies f enter enter') (rounds : Nat)
    {otherwise otherwise' : Eval Flow} (hotherwise : Moves f id otherwise otherwise')
    (arms : List Arm) : Moves f id (execArms world enter rounds otherwise arms)
      (execArms world enter' rounds otherwise' (Arm.relocateAll f arms)) := by
  match arms with
  | [] => exact hotherwise
  | ⟨l, condition, body⟩ :: arms =>
    refine bind (evalExpr world henter condition) fun v => ?_
    dsimp only [id]
    split
    · exact within ∅ (execBlock world henter rounds body)
    · exact execArms world henter rounds hotherwise arms

theorem execElse (world : World) (henter : MovesBodies f enter enter') (rounds : Nat)
    (otherwise : Option Block) :
    Moves f id (execElse world enter rounds otherwise)
      (execElse world enter' rounds (otherwise.map (Block.relocate f))) := by
  match otherwise with
  | none => exact pure _ _
  | some block => exact within ∅ (execBlock world henter rounds block)

theorem execBlock (world : World) (henter : MovesBodies f enter enter') (rounds : Nat)
    (block : Block) :
    Moves f id (execBlock world enter rounds block)
      (execBlock world enter' rounds (block.relocate f)) := by
  match block with
  | ⟨l, ss⟩ => exact execAll world henter rounds ss

theorem execAll (world : World) (henter : MovesBodies f enter enter') (rounds : Nat)
    (ss : List Statement) :
    Moves f id (execAll world enter rounds ss)
      (execAll world enter' rounds (Statement.relocateAll f ss)) := by
  match ss with
  | [] => exact pure _ _
  | s :: ss =>
    refine bind (execStatement world henter rounds s) fun flow => ?_
    cases flow with
    | next => exact execAll world henter rounds ss
    | returned v => exact pure _ _

end

/-! ### Bodies -/

/-- Relocated functions do the same, whatever number of calls may still be nested. -/
theorem enterBody (world : World) (rounds depth : Nat) (fn : Function) (bindings : Table Value) :
    Moves f id (enterBody world rounds depth fn bindings)
      (enterBody world rounds depth (fn.relocate f) bindings) := by
  induction depth generalizing fn bindings with
  | zero => exact stop _ _
  | succ depth ih =>
    obtain ⟨kind, name, parameters, body⟩ := fn
    exact within bindings (execBlock world ih rounds body)

end Moves

end KLang
