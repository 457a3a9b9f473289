import KLang.Interpreter.Evaluation

/-!
# Properties of all evaluations

Programs touch the state only in a few places. A property that each of these has, and that
sequencing keeps, is therefore a property of all evaluations.

* `Sequential`: properties kept by sequencing.
* `Discipline`: a property of expressions and a property of statements, with a clause for each place
  where the state is touched. A body with variables of its own leads from the second back to the
  first.
* `Discipline.evalExpr`, `Discipline.execStatement`, `Discipline.enterBody`: all expressions,
  statements and function bodies.
-/

namespace KLang

/-- A property of evaluations that sequencing keeps. -/
structure Sequential (P : ∀ {α : Type}, Eval α → Prop) : Prop where
  pure {α : Type} (a : α) : P (pure a : Eval α)
  stop {α : Type} (stop : Stop) : P (throw stop : Eval α)
  bind {α β : Type} {x : Eval α} {f : α → Eval β} (hx : P x) (hf : ∀ a, P (f a)) : P (x >>= f)

/-- A property `P` of expressions and a property `Q` of statements. -/
structure Discipline (P Q : ∀ {α : Type}, Eval α → Prop) : Prop where
  expressions : Sequential P
  statements : Sequential Q
  ofExpression {α : Type} {x : Eval α} (h : P x) : Q x
  name (location : Option Location) (name : Name) : P (evalName location name)
  step (location : Option Location) (op : PostfixOperator) (name : String) :
    P (evalStep location op name)
  callee (location : Option Location) (name : Name) : P (resolve location name)
  plot (world : World) (location : Option Location) (script : List String) :
    P (drawPlot world location script)
  trace (site : CallSite) {body : Eval Flow} (h : P body) : P (tracing site body)
  body (bindings : Table Value) {body : Eval Flow} (h : Q body) : P (within bindings body)
  declare (name : String) (value : Value) : Q (modify (·.declare name value) : Eval Unit)
  assign (location : Option Location) (target : Name) (value : Value) :
    Q (assignTo location target value)
  print (line : String) : Q (modify (·.printLine line) : Eval Unit)
  define (f : Function) : Q (modify (·.define f) : Eval Unit)
  addImport (location : Option Location) (name : String) : Q (importModule location name)

variable {P Q : ∀ {α : Type}, Eval α → Prop}

theorem Sequential.fault (h : Sequential P) {α : Type} (location : Option Location) (f : Fault) :
    P (Eval.fault location f : Eval α) :=
  h.stop _

theorem Sequential.ofExcept (h : Sequential P) {α : Type} (location : Option Location)
    (r : Except Fault α) : P (Eval.ofExcept location r) := by
  cases r with
  | ok a => exact h.pure a
  | error f => exact h.fault location f

theorem Sequential.callBuiltin (h : Sequential P) {world : World} {location : Option Location}
    (hplot : ∀ script, P (drawPlot world location script)) (b : Builtin) (arguments : List Value) :
    P (callBuiltin world location b arguments) := by
  unfold KLang.callBuiltin
  dsimp only
  split
  · exact h.fault ..
  · split
    · exact h.fault ..
    · exact h.ofExcept ..
    · exact h.bind (hplot _) fun _ => h.ofExcept ..

namespace Discipline

variable {enter : Enter}

theorem callBuiltin (h : Discipline P Q) (world : World) (location : Option Location) (b : Builtin)
    (arguments : List Value) : P (callBuiltin world location b arguments) :=
  h.expressions.callBuiltin (h.plot world location) b arguments

theorem callFunction (h : Discipline P Q) (henter : ∀ f bindings, P (enter f bindings))
    (location : Option Location) (f : Function) (arguments : Table Value) :
    P (callFunction enter location f arguments) := by
  have hbody := h.trace ⟨f.name, location⟩ (henter f arguments)
  refine h.expressions.bind hbody fun flow => ?_
  exact h.expressions.ofExcept location (flow.value.coerce f.kind)

/-! ## Expressions -/

mutual

/-- Every expression has the property of expressions. -/
theorem evalExpr (h : Discipline P Q) (world : World) (henter : ∀ f bindings, P (enter f bindings))
    (e : Expr) : P (evalExpr world enter e) := by
  match e with
  | .number l x => exact h.expressions.pure _
  | .string l s => exact h.expressions.pure _
  | .variable l name => exact h.name l name
  | .unary l op e =>
    refine h.expressions.bind (h.evalExpr world henter e) fun v => ?_
    exact h.expressions.ofExcept l (op.apply v)
  | .binary l op left right =>
    refine h.expressions.bind (h.evalExpr world henter left) fun a => ?_
    refine h.expressions.bind (h.evalExpr world henter right) fun b => ?_
    exact h.expressions.ofExcept l (op.apply a b)
  | .step l op name => exact h.step l op name
  | .call l name arguments =>
    refine h.expressions.bind (h.callee l name) fun callee => ?_
    cases callee with
    | builtin b =>
      refine h.expressions.bind (h.evalAll world henter arguments) fun values => ?_
      exact h.callBuiltin world l b values
    | function f =>
      have hbindings := h.evalArguments world henter f.parameters arguments ∅
      dsimp only
      split
      · exact h.expressions.fault ..
      · exact h.expressions.bind hbindings fun bindings => h.callFunction henter l f bindings

theorem evalAll (h : Discipline P Q) (world : World) (henter : ∀ f bindings, P (enter f bindings))
    (es : List Expr) : P (evalAll world enter es) := by
  match es with
  | [] => exact h.expressions.pure _
  | e :: es =>
    refine h.expressions.bind (h.evalExpr world henter e) fun v => ?_
    refine h.expressions.bind (h.evalAll world henter es) fun vs => ?_
    exact h.expressions.pure (v :: vs)

theorem evalArguments (h : Discipline P Q) (world : World)
    (henter : ∀ f bindings, P (enter f bindings)) (parameters : List Parameter)
    (arguments : List Expr) (bound : Table Value) :
    P (evalArguments world enter parameters arguments bound) := by
  match arguments, parameters with
  | [], _ => exact h.expressions.pure _
  | _ :: _, [] => exact h.expressions.pure _
  | e :: es, p :: ps =>
    refine h.expressions.bind (h.evalExpr world henter e) fun v => ?_
    refine h.expressions.bind (h.expressions.ofExcept e.location (v.coerce p.kind)) fun v => ?_
    exact h.evalArguments world henter ps es (bound.insert p.name v)

end

theorem evalLine (h : Discipline P Q) (world : World) (henter : ∀ f bindings, P (enter f bindings))
    (items : List Expr) : P (evalLine world enter items) := by
  refine h.expressions.bind (h.evalAll world henter items) fun values => ?_
  exact h.expressions.pure _

/-! ## Statements -/

theorem repeatWhile (h : Discipline P Q) {condition : Eval Value} {body : Eval Flow}
    (hcondition : P condition) (hbody : P body) (rounds : Nat) :
    P (repeatWhile condition body rounds) := by
  induction rounds with
  | zero => exact h.expressions.stop _
  | succ rounds ih =>
    refine h.expressions.bind hcondition fun v => ?_
    split
    · refine h.expressions.bind hbody fun flow => ?_
      cases flow with
      | next => exact ih
      | returned v => exact h.expressions.pure _
    · exact h.expressions.pure _

mutual

/-- Every statement has the property of statements. -/
theorem execStatement (h : Discipline P Q) (world : World)
    (henter : ∀ f bindings, P (enter f bindings)) (rounds : Nat) (s : Statement) :
    Q (execStatement world enter rounds s) := by
  have expression (e : Expr) : Q (KLang.evalExpr world enter e) :=
    h.ofExpression (h.evalExpr world henter e)
  -- most statements end with a change of the state, and the next statement follows
  have next {x : Eval Unit} (hx : Q x) : Q (x >>= fun _ => return Flow.next) :=
    h.statements.bind hx fun _ => h.statements.pure Flow.next
  match s with
  | .declare l kind name value =>
    refine h.statements.bind (expression value) fun v => ?_
    refine h.statements.bind (h.statements.ofExcept l (v.coerce kind)) fun v => ?_
    exact next (h.declare name v)
  | .assign l l' target value =>
    refine h.statements.bind (expression value) fun v => ?_
    exact next (h.assign l target v)
  | .print l items =>
    refine h.statements.bind (h.ofExpression (h.evalLine world henter items)) fun line => ?_
    exact next (h.print line)
  | .branch l arms otherwise =>
    have hotherwise := h.execElse world henter rounds otherwise
    exact h.ofExpression (h.execArms world henter rounds hotherwise arms)
  | .loop l condition body =>
    have hcondition := h.evalExpr world henter condition
    have hbody := h.body ∅ (h.execBlock world henter rounds body)
    exact h.ofExpression (h.repeatWhile hcondition hbody rounds)
  | .define l f => exact next (h.define f)
  | .returnValue l none => exact h.statements.pure _
  | .returnValue l (some value) =>
    refine h.statements.bind (expression value) fun v => ?_
    exact h.statements.pure (Flow.returned v)
  | .importModule l name => exact next (h.addImport l name)
  | .evaluate l value =>
    refine h.statements.bind (expression value) fun _ => ?_
    exact h.statements.pure Flow.next

theorem execArms (h : Discipline P Q) (world : World)
    (henter : ∀ f bindings, P (enter f bindings)) (rounds : Nat) {otherwise : Eval Flow}
    (hotherwise : P otherwise) (arms : List Arm) :
    P (execArms world enter rounds otherwise arms) := by
  match arms with
  | [] => exact hotherwise
  | ⟨l, condition, block⟩ :: arms =>
    refine h.expressions.bind (h.evalExpr world henter condition) fun v => ?_
    split
    · exact h.body ∅ (h.execBlock world henter rounds block)
    · exact h.execArms world henter rounds hotherwise arms

theorem execElse (h : Discipline P Q) (world : World)
    (henter : ∀ f bindings, P (enter f bindings)) (rounds : Nat) (otherwise : Option Block) :
    P (execElse world enter rounds otherwise) := by
  match otherwise with
  | none => exact h.expressions.pure _
  | some block => exact h.body ∅ (h.execBlock world henter rounds block)

theorem execBlock (h : Discipline P Q) (world : World)
    (henter : ∀ f bindings, P (enter f bindings)) (rounds : Nat) (block : Block) :
    Q (execBlock world enter rounds block) := by
  match block with
  | ⟨_, statements⟩ => exact h.execAll world henter rounds statements

theorem execAll (h : Discipline P Q) (world : World)
    (henter : ∀ f bindings, P (enter f bindings)) (rounds : Nat) (statements : List Statement) :
    Q (execAll world enter rounds statements) := by
  match statements with
  | [] => exact h.statements.pure _
  | s :: ss =>
    refine h.statements.bind (h.execStatement world henter rounds s) fun flow => ?_
    cases flow with
    | next => exact h.execAll world henter rounds ss
    | returned v => exact h.statements.pure _

end

/-- Every body of a function has the property of expressions. -/
theorem enterBody (h : Discipline P Q) (world : World) (rounds depth : Nat) (f : Function)
    (bindings : Table Value) : P (enterBody world rounds depth f bindings) := by
  induction depth generalizing f bindings with
  | zero => exact h.expressions.stop _
  | succ depth ih => exact h.body bindings (h.execBlock world ih rounds f.body)

end Discipline

end KLang
