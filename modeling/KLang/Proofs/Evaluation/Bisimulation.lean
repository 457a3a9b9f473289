import KLang.Proofs.Evaluation.Effect

/-!
# States that programs cannot tell apart

What a program does depends on the state only through what names stand for. So if names stand for
the same in two states, and this is not lost where both are changed in the same way, then programs
do the same from both.

* `Bisimulation`: a relation between such states, with a clause for each thing that is read and for
  each change.
* `Bisimulation.discipline`: from related states, every evaluation gives the same and comes to
  related states.
-/

namespace KLang

/-- A relation between states that programs cannot tell apart. -/
structure Bisimulation (T : State → State → Prop) : Prop where
  lookup? {s s' : State} (h : T s s') (name : String) : s'.lookup? name = s.lookup? name
  functions {s s' : State} (h : T s s') : s'.functions = s.functions
  imported {s s' : State} (h : T s s') (name : String) :
    s'.imported.get? name = s.imported.get? name
  constant? {s s' : State} (h : T s s') (name : String) : s'.constant? name = s.constant? name
  builtin? {s s' : State} (h : T s s') (name : String) : s'.builtin? name = s.builtin? name
  locals {s s' : State} (h : T s s') : s'.locals = s.locals
  inside {s s' : State} (h : T s s') (locals : Option (Table Value)) :
    T (s.inside locals) (s'.inside locals)
  declare {s s' : State} (h : T s s') (name : String) (value : Value) :
    T (s.declare name value) (s'.declare name value)
  store {s s' : State} (h : T s s') (name : String) (value : Value) :
    T (s.store name value) (s'.store name value)
  define {s s' : State} (h : T s s') (f : Function) : T (s.define f) (s'.define f)
  addImport {s s' : State} (h : T s s') {name : String} {library : Library}
    (hlibrary : Library.find? name = some library) :
    T (s.addImport name library) (s'.addImport name library)
  printLine {s s' : State} (h : T s s') (line : String) : T (s.printLine line) (s'.printLine line)
  plot {s s' : State} (h : T s s') (canPlot : Bool) (command script : List String) :
    T { s with output := s.output.plot canPlot command script }
      { s' with output := s'.output.plot canPlot command script }

namespace Bisimulation

variable {T : State → State → Prop} (hT : Bisimulation T)

/-! ## The parts that touch the state -/

theorem modify {f : State → State} (h : ∀ s s', T s s' → T (f s) (f s')) :
    Respects T (modify f : Eval Unit) :=
  fun s s' hs => ⟨rfl, h s s' hs⟩

include hT

theorem unassignable {s s' : State} (h : T s s') (name : String) :
    s'.unassignable name = s.unassignable name := by
  rw [State.unassignable, State.unassignable, hT.constant? h]

theorem evalName (l : Option Location) (name : Name) : Respects T (evalName l name) := by
  intro s s' h
  refine ⟨?_, by rwa [Eval.after_evalName, Eval.after_evalName]⟩
  rw [KLang.evalName, Eval.verdict_get_bind, Eval.verdict_get_bind]
  simp only [hT.lookup? h, hT.imported h, hT.constant? h]
  repeat' split
  all_goals rfl

theorem resolve (l : Option Location) (name : Name) : Respects T (resolve l name) := by
  intro s s' h
  refine ⟨?_, by rwa [Eval.after_resolve, Eval.after_resolve]⟩
  rw [KLang.resolve, Eval.verdict_get_bind, Eval.verdict_get_bind]
  simp only [hT.functions h, hT.imported h, hT.builtin? h]
  repeat' split
  all_goals rfl

theorem evalStep (l : Option Location) (op : PostfixOperator) (name : String) :
    Respects T (evalStep l op name) := by
  intro s s' h
  rw [KLang.evalStep, Eval.verdict_get_bind, Eval.verdict_get_bind, Eval.after_get_bind,
    Eval.after_get_bind]
  simp only [hT.lookup? h, hT.unassignable h]
  split
  · exact ⟨rfl, h⟩
  · exact ⟨rfl, hT.store h name _⟩
  · exact ⟨rfl, h⟩

theorem assignTo (l : Option Location) (target : Name) (value : Value) :
    Respects T (assignTo l target value) := by
  intro s s' h
  unfold KLang.assignTo
  split
  · exact ⟨rfl, h⟩
  · rw [Eval.verdict_get_bind, Eval.verdict_get_bind, Eval.after_get_bind, Eval.after_get_bind]
    simp only [hT.lookup? h, hT.unassignable h]
    split
    · exact ⟨rfl, h⟩
    · exact ⟨rfl, hT.store h target.base value⟩

theorem drawPlot (world : World) (l : Option Location) (script : List String) :
    Respects T (drawPlot world l script) := by
  unfold KLang.drawPlot
  split
  · exact modify fun s s' h => hT.plot h _ _ script
  · exact (Sequential.respects T).fault l _

theorem importModule (l : Option Location) (name : String) :
    Respects T (importModule l name) := by
  unfold KLang.importModule
  split
  · exact (Sequential.respects T).fault l _
  · rename_i library hlibrary
    exact modify fun s s' h => hT.addImport h hlibrary

theorem within (bindings : Table Value) {body : Eval Flow} (hbody : Respects T body) :
    Respects T (within bindings body) := by
  intro s s' h
  obtain ⟨hverdict, hafter⟩ := hbody _ _ (hT.inside h (some bindings))
  rw [Eval.verdict_within, Eval.verdict_within, Eval.after_within, Eval.after_within, hT.locals h]
  exact ⟨hverdict, hT.inside hafter s.locals⟩

/-- From related states, every evaluation gives the same and comes to related states. -/
theorem discipline : Discipline (Respects T) (Respects T) where
  expressions := Sequential.respects T
  statements := Sequential.respects T
  ofExpression h := h
  name := hT.evalName
  step := hT.evalStep
  callee := hT.resolve
  plot := hT.drawPlot
  trace site _ h := h.tracing site
  body bindings _ h := hT.within bindings h
  declare name value := modify fun _ _ h => hT.declare h name value
  assign := hT.assignTo
  print line := modify fun _ _ h => hT.printLine h line
  define f := modify fun _ _ h => hT.define h f
  addImport := hT.importModule

end Bisimulation

end KLang
