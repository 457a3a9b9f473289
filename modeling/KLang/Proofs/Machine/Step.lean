import KLang.Interpreter.Run
import Mathlib.Logic.Relation

/-!
# Evaluation step by step

The evaluator goes down into a program by recursion, so what it is in the middle of is nowhere to be
seen. Here the same evaluation is a machine that keeps this as a stack of frames and takes one step
after the other. A step either begins something, or hands what has come out to the frame on top.

* `Control`: what is to be done next, or what has come out.
* `Frame`: what waits for the outcome. An activation is a body of a function that is being executed.
* `Config.step`: one step; it goes on from what a frame waits for, and lets all else pass, so that
  errors leave all frames and returned values all frames up to an activation.
* `Config.Leads`: any number of steps.
-/

namespace KLang

/-- What is to be done next, or what has come out of it. -/
inductive Control where
  | expr (e : Expr)
  | callee (location : Option Location) (callee : Callee) (arguments : List Expr)
  | all (done : List Value) (todo : List Expr)
  | arguments (parameters : List Parameter) (todo : List Expr) (bound : Table Value)
  | statement (s : Statement)
  | statements (ss : List Statement)
  | block (ss : List Statement)
  | arms (rest : List Arm) (otherwise : Option Block)
  | rounds (condition : Expr) (body : Block) (n : Nat)
  | value (v : Value)
  | values (vs : List Value)
  | bindings (bound : Table Value)
  | flow (f : Flow)
  | stop (why : Stop)

/-- What waits for an outcome. -/
inductive Frame where
  | unary (location : Option Location) (op : UnaryOperator)
  | first (location : Option Location) (op : BinaryOperator) (e : Expr)
  | second (location : Option Location) (op : BinaryOperator) (a : Value)
  | element (done : List Value) (todo : List Expr)
  | builtin (location : Option Location) (b : Builtin)
  | argument (location : Option Location) (parameter : Parameter) (parameters : List Parameter)
      (todo : List Expr) (bound : Table Value)
  | call (location : Option Location) (f : Function)
  | declare (location : Option Location) (kind : Kind) (name : String)
  | assign (location : Option Location) (target : Name)
  | print
  | result
  | discard
  | arm (block : Block) (rest : List Arm) (otherwise : Option Block)
  | test (condition : Expr) (block : Block) (n : Nat)
  | again (condition : Expr) (block : Block) (n : Nat)
  | behind (ss : List Statement)
  | body (outside : Option (Table Value))
  | activation (location : Option Location) (f : Function) (outside : Option (Table Value))

/-- The calls whose bodies are being executed, innermost first. -/
def activations : List Frame → List CallSite
  | [] => []
  | .activation l f _ :: k => ⟨f.name, l⟩ :: activations k
  | _ :: k => activations k

/-- What a step leads to: the frames are put on top of those that are there. -/
structure Move where
  control : Control
  frames : List Frame
  state : State

/-- The machine: what it does, what waits for it, and the state of the interpreter. -/
structure Config where
  control : Control
  frames : List Frame
  state : State

/-- The machine after a move. -/
def Move.on (move : Move) (k : List Frame) : Config := ⟨move.control, move.frames ++ k, move.state⟩

/-- A step that asks the interpreter for something. -/
def perform {α : Type} (x : Eval α) (give : α → Control) (s : State) : Move :=
  match x.run s with
  | .ok a s => ⟨give a, [], s⟩
  | .error why s => ⟨.stop why, [], s⟩

variable (limits : Limits) (world : World)

/-- The step that begins an expression. -/
def Expr.begin (s : State) : Expr → Move
  | .number _ x => ⟨.value (.number x), [], s⟩
  | .string _ text => ⟨.value (.string text), [], s⟩
  | .variable l name => perform (evalName l name) .value s
  | .unary l op e => ⟨.expr e, [.unary l op], s⟩
  | .binary l op a b => ⟨.expr a, [.first l op b], s⟩
  | .step l op name => perform (evalStep l op name) .value s
  | .call l name es => perform (resolve l name) (.callee l · es) s

/-- The step that begins a statement. -/
def Statement.begin (s : State) : Statement → Move
  | .declare l kind name value => ⟨.expr value, [.declare l kind name], s⟩
  | .assign l _ target value => ⟨.expr value, [.assign l target], s⟩
  | .print _ items => ⟨.all [] items, [.print], s⟩
  | .branch _ arms otherwise => ⟨.arms arms otherwise, [], s⟩
  | .loop _ condition body => ⟨.rounds condition body limits.rounds, [], s⟩
  | .define _ f => ⟨.flow .next, [], s.define f⟩
  | .returnValue _ none => ⟨.flow (.returned .nil), [], s⟩
  | .returnValue _ (some value) => ⟨.expr value, [.result], s⟩
  | .importModule l name => perform (KLang.importModule l name) (fun _ => .flow .next) s
  | .evaluate _ value => ⟨.expr value, [.discard], s⟩

/-- The step that begins something, unless it has come out already. -/
def Control.begin (s : State) : Control → Option Move
  | .expr e => e.begin s
  | .callee l (.builtin b) es => some ⟨.all [] es, [.builtin l b], s⟩
  | .callee l (.function f) es =>
    if es.length ≠ f.parameters.length then
      some (perform (Eval.fault l (.argumentCount f.parameters.length es.length)) .value s)
    else some ⟨.arguments f.parameters es ∅, [.call l f], s⟩
  | .all done [] => some ⟨.values done, [], s⟩
  | .all done (e :: todo) => some ⟨.expr e, [.element done todo], s⟩
  | .arguments (p :: ps) (e :: todo) bound =>
    some ⟨.expr e, [.argument e.location p ps todo bound], s⟩
  | .arguments _ _ bound => some ⟨.bindings bound, [], s⟩
  | .statement t => t.begin limits s
  | .statements [] => some ⟨.flow .next, [], s⟩
  | .statements (t :: ss) => some ⟨.statement t, [.behind ss], s⟩
  | .block ss => some ⟨.statements ss, [.body s.locals], s.inside (some ∅)⟩
  | .arms (arm :: rest) otherwise => some ⟨.expr arm.condition, [.arm arm.body rest otherwise], s⟩
  | .arms [] (some b) => some ⟨.block b.statements, [], s⟩
  | .arms [] none => some ⟨.flow .next, [], s⟩
  | .rounds _ _ 0 => some ⟨.stop .roundLimit, [], s⟩
  | .rounds condition body (n + 1) => some ⟨.expr condition, [.test condition body n], s⟩
  | .value _ | .values _ | .bindings _ | .flow _ | .stop _ => none

/-- The step that goes on from an outcome, below which `depth` bodies of functions are being
executed. A frame that does not wait for the outcome lets it pass. -/
def Frame.resume (depth : Nat) (s : State) : Frame → Control → Move
  | .unary l op, .value v => perform (Eval.ofExcept l (op.apply v)) .value s
  | .first l op e, .value v => ⟨.expr e, [.second l op v], s⟩
  | .second l op a, .value v => perform (Eval.ofExcept l (op.apply a v)) .value s
  | .element done todo, .value v => ⟨.all (done ++ [v]) todo, [], s⟩
  | .builtin l b, .values vs => perform (callBuiltin world l b vs) .value s
  | .argument l p ps todo bound, .value v =>
    perform (Eval.ofExcept l (v.coerce p.kind))
      (fun v => .arguments ps todo (bound.insert p.name v)) s
  | .call l f, .bindings bound =>
    if depth < limits.calls then
      ⟨.statements f.body.statements, [.activation l f s.locals], s.inside (some bound)⟩
    else ⟨.stop .callLimit, [], s⟩
  | .declare l kind name, .value v =>
    perform (Eval.ofExcept l (v.coerce kind) >>= fun v => modify (·.declare name v))
      (fun _ => .flow .next) s
  | .assign l target, .value v => perform (assignTo l target v) (fun _ => .flow .next) s
  | .print, .values vs => ⟨.flow .next, [], s.printLine (String.join (vs.map Value.text))⟩
  | .result, .value v => ⟨.flow (.returned v), [], s⟩
  | .discard, .value _ => ⟨.flow .next, [], s⟩
  | .arm block rest otherwise, .value v =>
    if v.truthy then ⟨.block block.statements, [], s⟩ else ⟨.arms rest otherwise, [], s⟩
  | .test condition block n, .value v =>
    if v.truthy then ⟨.block block.statements, [.again condition block n], s⟩
    else ⟨.flow .next, [], s⟩
  | .again condition block n, .flow .next => ⟨.rounds condition block n, [], s⟩
  | .behind ss, .flow .next => ⟨.statements ss, [], s⟩
  | .body outside, c => ⟨c, [], s.inside outside⟩
  | .activation l f outside, .flow flow =>
    perform (Eval.ofExcept l (flow.value.coerce f.kind)) .value (s.inside outside)
  | .activation l f outside, .stop why => ⟨.stop (why.through ⟨f.name, l⟩), [], s.inside outside⟩
  | _, c => ⟨c, [], s⟩

namespace Config

/-- One step. There is none when the outcome has left the last frame. -/
def step (m : Config) : Option Config :=
  match m.control.begin limits m.state with
  | some move => some (move.on m.frames)
  | none =>
    match m.frames with
    | [] => none
    | F :: k => some ((F.resume limits world (activations k).length m.state m.control).on k)

/-- Some number of steps lead from one to the other. -/
def Leads : Config → Config → Prop :=
  Relation.ReflTransGen fun m m' => m.step limits world = some m'

/-- The machine that is about to execute a program. -/
def start (i : Interpreter) (program : Program) : Config :=
  ⟨.statements program.statements, [], i.start⟩

/-- What is there when the outcome has left the last frame. -/
def finished? (m : Config) : Option Run :=
  match m with
  | ⟨.flow flow, [], s⟩ => some ⟨flow.result, s.toInterpreter, s.output⟩
  | ⟨.stop why, [], s⟩ => some ⟨why.result, s.toInterpreter, s.output⟩
  | _ => none

end Config

end KLang
