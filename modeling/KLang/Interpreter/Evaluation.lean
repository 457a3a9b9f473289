import KLang.Interpreter.Calling
import KLang.Value.Operation

/-!
# Evaluating programs

Expressions and statements are evaluated by recursion on their form. Two things are not part of that
form and are bounded by limits: how deeply calls of functions are nested, and how many rounds a loop
makes.

* `evalExpr`, `execStatement`: relative to `enter`, which executes the body of a function.
* `repeatWhile`: the rounds of a loop.
* `enterBody`: the body of a function, by recursion on the number of calls that may still be nested.
-/

namespace KLang

/-- How the execution of a statement ends: the next one follows, or the function returns. -/
inductive Flow where
  | next
  | returned (value : Value)
  deriving DecidableEq, Inhabited

/-- The value that a body gives: what it returned, or the absent value. -/
def Flow.value : Flow → Value
  | .next => .nil
  | .returned v => v

/-- Executes the body of a function whose variables are the given ones. -/
abbrev Enter := Function → Table Value → Eval Flow

/-- Executes a body with its own variables and comes back to the variables outside of it, also if
the body is stopped. -/
def within (bindings : Table Value) (body : Eval Flow) : Eval Flow := do
  let outside := (← get).locals
  modify (·.inside (some bindings))
  try body
  finally modify (·.inside outside)

/-- Adds an entry to the trace of an error that leaves the body of a function. -/
def tracing (site : CallSite) (body : Eval Flow) : Eval Flow :=
  tryCatch body fun stop => throw (stop.through site)

/-- The body of a loop while the condition holds, at most for the given number of rounds. -/
def repeatWhile (condition : Eval Value) (body : Eval Flow) : Nat → Eval Flow
  | 0 => throw .roundLimit
  | rounds + 1 => do
    if (← condition).truthy then
      match ← body with
      | .next => repeatWhile condition body rounds
      | .returned v => return .returned v
    else return .next

/-- The value of a name. -/
def evalName (location : Option Location) (name : Name) : Eval Value := do
  let s ← get
  match name.module with
  | some m =>
    match s.imported.get? m with
    | none => Eval.fault location (.moduleNotImported m)
    | some library =>
      match library.constants.get? name.base with
      | none => Eval.fault location (.undefinedConstant name)
      | some x => return .number x
  | none =>
    match s.lookup? name.base with
    | some v => return v
    | none => return .number ((s.constant? name.base).getD 0)

/-- The value of a variable before it is changed by one. -/
def evalStep (location : Option Location) (op : PostfixOperator) (name : String) : Eval Value := do
  let s ← get
  match s.lookup? name with
  | none => Eval.fault location (s.unassignable name)
  | some (.number x) =>
    modify (·.store name (.number (x.step op)))
    return .number x
  | some v => Eval.fault location (.postfixOperand name v.type)

/-- Gives the variable that a name is bound to another value. -/
def assignTo (location : Option Location) (target : Name) (value : Value) : Eval Unit := do
  match target.module with
  | some _ => Eval.fault location (.readOnly target)
  | none =>
    let s ← get
    match s.lookup? target.base with
    | none => Eval.fault location (s.unassignable target.base)
    | some _ => modify (·.store target.base value)

/-- Imports a module. -/
def importModule (location : Option Location) (name : String) : Eval Unit :=
  match Library.find? name with
  | none => Eval.fault location (.moduleNotFound name)
  | some library => modify (·.addImport name library)

/-- What a call is resolved to before its arguments are evaluated. -/
inductive Callee where
  | function (f : Function)
  | builtin (b : Builtin)

/-- The function that a name calls: a function of the program before one of an imported module. -/
def resolve (location : Option Location) (name : Name) : Eval Callee := do
  let s ← get
  match name.module with
  | some m =>
    match s.imported.get? m with
    | none => Eval.fault location (.moduleNotImported m)
    | some library =>
      match library.builtins.get? name.base with
      | none => Eval.fault location (.undefinedFunction name)
      | some b => return .builtin b
  | none =>
    match s.functions.get? name.base with
    | some f => return .function f
    | none =>
      match s.builtin? name.base with
      | none => Eval.fault location (.undefinedFunction name)
      | some b => return .builtin b

variable (world : World) (enter : Enter)

/-- The value of a function at the given arguments, as its kind holds it. -/
def callFunction (location : Option Location) (f : Function) (arguments : Table Value) :
    Eval Value := do
  let flow ← tracing ⟨f.name, location⟩ (enter f arguments)
  Eval.ofExcept location (flow.value.coerce f.kind)

mutual

/-- The value of an expression. -/
def evalExpr : Expr → Eval Value
  | .number _ x => return .number x
  | .string _ s => return .string s
  | .variable location name => evalName location name
  | .unary location op e => do
    let v ← evalExpr e
    Eval.ofExcept location (op.apply v)
  | .binary location op left right => do
    let a ← evalExpr left
    let b ← evalExpr right
    Eval.ofExcept location (op.apply a b)
  | .step location op name => evalStep location op name
  | .call location name arguments => do
    match ← resolve location name with
    | .builtin b =>
      let values ← evalAll arguments
      callBuiltin world location b values
    | .function f =>
      if arguments.length ≠ f.parameters.length then
        Eval.fault location (.argumentCount f.parameters.length arguments.length)
      else
        let bindings ← evalArguments f.parameters arguments ∅
        callFunction enter location f bindings

/-- The values of expressions, from left to right. -/
def evalAll : List Expr → Eval (List Value)
  | [] => return []
  | e :: es => do
    let v ← evalExpr e
    let vs ← evalAll es
    return v :: vs

/-- The parameters bound to the values of arguments, each converted before the next is evaluated. -/
def evalArguments (parameters : List Parameter) (arguments : List Expr) (bound : Table Value) :
    Eval (Table Value) :=
  match arguments, parameters with
  | e :: es, p :: ps => do
    let v ← evalExpr e
    let v ← Eval.ofExcept e.location (v.coerce p.kind)
    evalArguments ps es (bound.insert p.name v)
  | _, _ => return bound

end

/-- The texts of the values of expressions, one behind the other. -/
def evalLine (items : List Expr) : Eval String := do
  let values ← evalAll world enter items
  return String.join (values.map Value.text)

variable (rounds : Nat)

mutual

/-- Executes a statement. -/
def execStatement : Statement → Eval Flow
  | .declare location kind name value => do
    let v ← evalExpr world enter value
    let v ← Eval.ofExcept location (v.coerce kind)
    modify (·.declare name v)
    return .next
  | .assign location _ target value => do
    let v ← evalExpr world enter value
    assignTo location target v
    return .next
  | .print _ items => do
    let line ← evalLine world enter items
    modify (·.printLine line)
    return .next
  | .branch _ arms otherwise => execArms (execElse otherwise) arms
  | .loop _ condition body =>
    repeatWhile (evalExpr world enter condition) (within ∅ (execBlock body)) rounds
  | .define _ f => do
    modify (·.define f)
    return .next
  | .returnValue _ none => return .returned .nil
  | .returnValue _ (some value) => do
    let v ← evalExpr world enter value
    return .returned v
  | .importModule location name => do
    importModule location name
    return .next
  | .evaluate _ value => do
    let _ ← evalExpr world enter value
    return .next

/-- Executes the first arm whose condition holds, or does `otherwise` if there is none. -/
def execArms (otherwise : Eval Flow) : List Arm → Eval Flow
  | [] => otherwise
  | ⟨_, condition, body⟩ :: arms => do
    let v ← evalExpr world enter condition
    if v.truthy then within ∅ (execBlock body) else execArms otherwise arms

/-- Executes the block for the case that no condition holds, if there is one. -/
def execElse : Option Block → Eval Flow
  | none => return .next
  | some block => within ∅ (execBlock block)

/-- Executes the statements of a block. -/
def execBlock : Block → Eval Flow
  | ⟨_, statements⟩ => execAll statements

/-- Executes statements up to the first that returns. -/
def execAll : List Statement → Eval Flow
  | [] => return .next
  | s :: ss => do
    match ← execStatement s with
    | .next => execAll ss
    | .returned v => return .returned v

end

/-- Executes the body of a function, within which at most `depth` further calls may be nested. -/
def enterBody : Nat → Enter
  | 0 => fun _ _ => throw .callLimit
  | depth + 1 => fun f bindings =>
    within bindings (execBlock world (enterBody depth) rounds f.body)

end KLang
