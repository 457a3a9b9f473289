import KLang.Proofs.Machine.Signals
import KLang.Proofs.Parsing.Placement

/-!
# Traces are call stacks

The trace of an error is put together while the error leaves one body after the other. It comes out
as the list of the activations that were there when the error came up.

In the step in which an error comes up, it stands at a node of the body that is being executed and
its trace is empty. From there on it only passes frames, of which each activation adds its entry. So
the trace of the result is the list of the activations behind that step, and what is known of these
is known of the trace: each is a call that stands in the body of the next one. All these bodies are
bodies of functions that have been declared, so where all texts have locations, all their nodes do.

* `Config.ComesUp`, `Config.comesUp_of_failed`: how the error of a run comes up.
* `Interpreter.Located.declared`: where all texts have locations, all functions do.
* `Interpreter.trace_is_call_stack`: both together.
-/

namespace KLang

/-! ## Where the code of a body stands -/

section placed

variable {P : Option Location → Prop} {b : List Statement} (hb : ∀ t ∈ b, t.Placed P)
include hb

theorem HasStatement.placed {t : Statement} (h : HasStatement b t) : t.Placed P := by
  induction h with
  | here h => exact hb _ h
  | arm _ harm ht ih =>
    cases ih with
    | branch _ _ harms _ => exact harms _ harm _ ht
  | otherwise _ ht ih =>
    cases ih with
    | branch _ _ _ hotherwise => exact hotherwise _ rfl _ ht
  | loop _ ht ih =>
    cases ih with
    | loop _ _ hbody => exact hbody _ ht

theorem HasExpr.placed {e : Expr} (h : HasExpr b e) : e.Placed P := by
  induction h with
  | declare h => cases h.placed hb with | declare _ _ _ h => exact h
  | assign h => cases h.placed hb with | assign _ _ _ h => exact h
  | print h he => cases h.placed hb with | print _ h => exact h _ he
  | arm h harm => cases h.placed hb with | branch _ h _ _ => exact h _ harm
  | loop h => cases h.placed hb with | loop _ h _ => exact h
  | result h => cases h.placed hb with | returnValue _ h => exact h
  | evaluate h => cases h.placed hb with | evaluate _ h => exact h
  | operand _ ih => cases ih with | unary _ _ h => exact h
  | first _ ih => cases ih with | binary _ _ h _ => exact h
  | second _ ih => cases ih with | binary _ _ _ h => exact h
  | argument _ he ih => cases ih with | call _ _ h => exact h _ he

theorem HasNode.placed {l : Option Location} (h : HasNode b l) : P l := by
  cases h with
  | statement h => exact (h.placed hb).location
  | expr h => exact (h.placed hb).location

end placed

theorem mem_activations {site : CallSite} {k : List Frame} (h : site ∈ activations k) :
    ∃ inner l f outside outer, k = inner ++ .activation l f outside :: outer ∧
      site = ⟨f.name, l⟩ := by
  induction k with
  | nil => simp [activations] at h
  | cons F k ih =>
    have hcons (hk : site ∈ activations k) : ∃ inner l f outside outer,
        F :: k = inner ++ .activation l f outside :: outer ∧ site = ⟨f.name, l⟩ := by
      obtain ⟨inner, l, f, outside, outer, rfl, hsite⟩ := ih hk
      exact ⟨F :: inner, l, f, outside, outer, rfl, hsite⟩
    cases F with
    | activation l f outside =>
      obtain rfl | hk := List.mem_cons.mp h
      · exact ⟨[], l, f, outside, k, rfl, rfl⟩
      · exact hcons hk
    | _ => exact hcons h

namespace Config

variable {limits : Limits} {world : World} {m m' : Config}

theorem error_comes_up {e : RuntimeError} (h : Leads limits world m m')
    (hm : ∀ e, m.control ≠ .stop (.error e)) (he : m'.control = .stop (.error e)) :
    ∃ m₁ e₁ k s, Leads limits world m m₁ ∧ (∀ e, m₁.control ≠ .stop (.error e)) ∧
      m₁.step limits world = some ⟨.stop (.error e₁), k, s⟩ := by
  induction h generalizing e with
  | refl => exact (hm e he).elim
  | @tail m₁ m' hleads hstep ih =>
    by_cases hthere : ∃ e, m₁.control = .stop (.error e)
    · obtain ⟨e₁, he₁⟩ := hthere
      exact ih he₁
    · obtain ⟨c, k, s⟩ := m'
      obtain rfl : c = .stop (.error e) := he
      exact ⟨m₁, e, k, s, hleads, fun e he => hthere ⟨e, he⟩, hstep⟩

/-- The activations in the frames are calls of a run: each has been met in the body of the next one,
or in the program, where it was found to call the function, and the body of the function has been
begun. -/
def IsCallStack (limits : Limits) (world : World) (i : Interpreter) (program : Program)
    (k : List Frame) : Prop :=
  ∀ inner l f outside outer, k = inner ++ .activation l f outside :: outer →
    (∃ name es s, HasExpr (owner program.statements outer) (.call l name es) ∧
      Leads limits world (start i program) ⟨.expr (.call l name es), outer, s⟩ ∧
      (resolve l name).verdict s = .ok (.function f)) ∧
    ∃ s, Leads limits world (start i program)
      ⟨.statements f.body.statements, .activation l f outside :: outer, s⟩

theorem isCallStack_of_leads {i : Interpreter} {program : Program}
    (h : Leads limits world (start i program) m) :
    IsCallStack limits world i program m.frames := by
  intro inner l f outside outer hframes
  have hcalled := (called_of_leads h).frames
  have hbegun := begun_of_leads h rfl
  rw [hframes] at hcalled hbegun
  obtain ⟨name, es, s, hleads, hresolve⟩ := hcalled.of_append.1 l f rfl
  have hexpr := (coherent_of_leads hleads).control
  exact ⟨⟨name, es, s, hexpr, hleads, hresolve⟩, hbegun.of_append.1 l f outside rfl⟩

/-- How the error of a run comes up: in a step of the machine, behind which there are the frames
`k`. -/
structure ComesUp (limits : Limits) (world : World) (i : Interpreter) (program : Program)
    (e : RuntimeError) (m : Config) (k : List Frame) : Prop where
  leads : Leads limits world (start i program) m
  /-- There has been no error before. -/
  fresh : ∀ e, m.control ≠ .stop (.error e)
  step : ∃ s, m.step limits world = some ⟨.stop (.error ⟨e.fault, e.location, []⟩), k, s⟩
  /-- No body is left in this step but one that has been executed to its end. -/
  frames : m.frames = k ∨ ∃ F, m.frames = F :: k ∧
    ∀ l f outside, F = .activation l f outside → ∃ flow, m.control = .flow flow
  calls : IsCallStack limits world i program k
  trace : e.trace = activations k
  node : HasNode (owner program.statements k) e.location

theorem comesUp_of_failed {i : Interpreter} {program : Program} {e : RuntimeError}
    (h : (i.run limits world program).result = .failed e) :
    ∃ m k, ComesUp limits world i program e m k := by
  obtain ⟨m, hleads, hrun⟩ := start_leads limits world i program
  obtain ⟨s, rfl⟩ : ∃ s, m = ⟨.stop (.error e), [], s⟩ := by
    obtain ⟨s, ⟨flow, rfl, hr⟩ | ⟨why, rfl, hr⟩⟩ := finished_eq_some hrun <;> rw [hr] at h
    · cases flow <;> exact nomatch h
    · cases why with
      | error e' => exact ⟨s, by rw [Result.failed.inj h]⟩
      | callLimit | roundLimit => exact nomatch h
  obtain ⟨m, ⟨fault, l, trace⟩, k, s, hm, hfresh, hstep⟩ :=
    error_comes_up hleads (by simp [start]) rfl
  obtain ⟨⟨hnode, htrace⟩, hframes⟩ := step_error hstep (coherent_of_leads hm) hfresh rfl
  obtain rfl : trace = [] := htrace
  -- the error passes the frames that it meets, and its trace is empty before
  rw [run_of_error (hm.tail hstep)] at h
  obtain rfl := Result.failed.inj h
  exact ⟨m, k, hm, hfresh, ⟨s, hstep⟩, hframes, isCallStack_of_leads (hm.tail hstep), rfl, hnode⟩

end Config

/-! ## Interpreters with locations -/

/-- An interpreter in which only texts with a location have been run. -/
inductive Interpreter.Located : Interpreter → Prop
  | empty : Located ∅
  | letGlobal {i : Interpreter} (h : Located i) (name : String) (v : Value) :
      Located (i.letGlobal name v)
  | run {i : Interpreter} {r : Run} (h : Located i) (limits : Limits) (world : World)
      (source : String) (l : Location) (hr : i.runText limits world source (some l) = .ok r) :
      Located r.interpreter

/-- All nodes of the body of a function have locations. -/
def Function.Located (f : Function) : Prop := ∀ t ∈ f.body.statements, t.Placed (·.isSome)

namespace Interpreter

theorem runText_eq_ok {limits : Limits} {world : World} {i : Interpreter} {source : String}
    {l : Option Location} {r : Run} :
    i.runText limits world source l = .ok r ↔
      ∃ program, Program.ofText source l = .ok program ∧ i.run limits world program = r := by
  rw [runText]
  cases Program.ofText source l with
  | error e => constructor <;> nofun
  | ok program =>
    constructor
    · intro h
      exact ⟨program, rfl, Except.ok.inj h⟩
    · rintro ⟨program, hprogram, rfl⟩
      obtain rfl := Except.ok.inj hprogram
      rfl

theorem known_located {limits : Limits} {world : World} {i : Interpreter} {program : Program}
    {m : Config} (hi : Config.Declared Function.Located i.start)
    (hprogram : ∀ t ∈ program.statements, t.Placed (·.isSome))
    (h : Config.Leads limits world (Config.start i program) m) :
    Config.Declared Function.Located m.state ∧ Config.Calls (fun _ f _ => f.Located) m := by
  have hdefine {b : List Statement} (hb : ∀ t ∈ b, t.Placed (·.isSome)) (l : Option Location)
      (f : Function) (h : HasStatement b (.define l f)) : f.Located := by
    cases h.placed hb with
    | define _ hbody => exact hbody
  exact Config.known_of_leads hi (hdefine hprogram) (fun f hf => hdefine hf) h

theorem Located.declared {i : Interpreter} (h : i.Located) :
    Config.Declared Function.Located i.start := by
  induction h with
  | empty => exact nofun
  | letGlobal _ name v ih => exact ih
  | run _ limits world source l hr ih =>
    obtain ⟨program, hprogram, rfl⟩ := runText_eq_ok.mp hr
    obtain ⟨m, hleads, hend⟩ := Config.exists_leads_run limits world _ program
    rw [hend]
    exact (known_located ih (Program.located_of_ofText hprogram) hleads).1

theorem located_of_failed {limits : Limits} {world : World} {i : Interpreter} {source : String}
    {l : Location} {r : Run} {e : RuntimeError} (hi : i.Located)
    (hr : i.runText limits world source (some l) = .ok r) (he : r.result = .failed e) :
    e.location.isSome ∧ ∀ site ∈ e.trace, site.location.isSome := by
  obtain ⟨program, hprogram, rfl⟩ := runText_eq_ok.mp hr
  obtain ⟨m, k, h⟩ := Config.comesUp_of_failed he
  obtain ⟨s, hstep⟩ := h.step
  have hcalls := (known_located hi.declared (Program.located_of_ofText hprogram)
    (h.leads.tail hstep)).2.frames
  -- the body of each activation in the trace has locations, and so has the program
  have howner {inner outer : List Frame} (hk : k = inner ++ outer) :
      ∀ t ∈ owner program.statements outer, t.Placed (·.isSome) := by
    change StackCalls _ k at hcalls
    rw [hk] at hcalls
    obtain hprogram' | ⟨f, hf, hbody⟩ := Config.owner_cases hcalls.of_append
    · rw [hprogram']
      exact Program.located_of_ofText hprogram
    · rw [hbody]
      exact hf
  refine ⟨h.node.placed (howner (List.nil_append k).symm), fun site hsite => ?_⟩
  rw [h.trace] at hsite
  obtain ⟨inner, l, f, outside, outer, hk, rfl⟩ := mem_activations hsite
  obtain ⟨⟨name, es, -, hcall, -⟩, -⟩ := h.calls inner l f outside outer hk
  have houter : k = (inner ++ [.activation l f outside]) ++ outer := by simpa using hk
  exact (hcall.placed (howner houter)).location

variable (limits : Limits) (world : World) in
/-- **The trace of an error is the call stack.** An error comes up in a step of the machine. Its
trace lists the activations that are in the frames behind this step, innermost first: the calls
whose bodies are being executed, and neither those whose arguments are still evaluated or converted
nor those whose bodies have been executed to their end. The error stands at a node of the innermost
of these bodies, and each call of the trace at a call in the body of the next one, or in the
program. If all texts that have been run in the interpreter have locations, so has everything in the
error. -/
theorem trace_is_call_stack :
    (∀ (i : Interpreter) (program : Program) (e : RuntimeError),
      (i.run limits world program).result = .failed e →
        ∃ m k, Config.ComesUp limits world i program e m k) ∧
    ∀ (i : Interpreter) (source : String) (l : Location) (r : Run) (e : RuntimeError), i.Located →
      i.runText limits world source (some l) = .ok r → r.result = .failed e →
        e.location.isSome ∧ ∀ site ∈ e.trace, site.location.isSome :=
  ⟨fun _ _ _ h => Config.comesUp_of_failed h, fun _ _ _ _ _ hi hr he => located_of_failed hi hr he⟩

/-- A body that has been executed to its end is not in the trace, but the body around the call
is. -/
theorem trace_is_call_stack_coerce :
    let l (n : Int) : Option Location := some ⟨none, n⟩
    let world : World := ⟨"", false, fun _ => false⟩
    let f : Function := ⟨.num, "f", [], ⟨l 1, [.returnValue (l 1) (some (.string (l 1) "x"))]⟩⟩
    let g : Function := ⟨.var, "g", [], ⟨l 2, [.evaluate (l 3) (.call (l 3) ⟨none, "f"⟩ [])]⟩⟩
    let program : Program :=
      ⟨l 1, [.define (l 1) f, .define (l 2) g, .evaluate (l 4) (.call (l 4) ⟨none, "g"⟩ [])]⟩
    (∃ fault m k, (run .standard world ∅ program).result = .failed ⟨fault, l 3, [⟨"g", l 4⟩]⟩ ∧
      Config.ComesUp .standard world ∅ program ⟨fault, l 3, [⟨"g", l 4⟩]⟩ m k) ∧
    ∃ r e, runText .standard world ∅ "f();" (l 1) = .ok r ∧ r.result = .failed e ∧
      e.location.isSome ∧ ∀ site ∈ e.trace, site.location.isSome := by
  intro l world f g program
  have hprogram : Program.ofText "f();" (l 1) =
      .ok ⟨l 1, [.evaluate (l 1) (.call (l 1) ⟨none, "f"⟩ [])]⟩ := by
    have hwords : (Tokens.ofText "f();" (l 1)).words = [⟨.identifier "f", l 1⟩,
        ⟨.symbol .lparen, l 1⟩, ⟨.symbol .rparen, l 1⟩, ⟨.symbol .semicolon, l 1⟩] := by
      decide +kernel
    refine Program.ofText_eq_ok.mpr ⟨l 1, by decide +kernel, ?_⟩
    rw [hwords]
    have hnone : ∀ a ∈ ([] : List (List Token × Expr)), Derives .plain .compare a.1 a.2 := by simp
    have hcall : Derives .plain .postfixed [⟨.identifier "f", l 1⟩, ⟨.symbol .lparen, l 1⟩,
        ⟨.symbol .rparen, l 1⟩] (.call (l 1) ⟨none, "f"⟩ []) :=
      .call (l 1) (l 1) (.next (.name (l 1) "f")) .nil hnone
    exact ⟨.cons (.evaluate (l 1) (l 1) "f" hcall.loosest) .nil, rfl⟩
  have hrun : runText .standard world ∅ "f();" (l 1) = .ok _ :=
    runText_eq_ok.mpr ⟨_, hprogram, rfl⟩
  obtain ⟨m, k, h⟩ := (trace_is_call_stack .standard world).1 ∅ program _ rfl
  exact ⟨⟨_, m, k, rfl, h⟩, _, _, hrun, rfl,
    (trace_is_call_stack .standard world).2 ∅ _ _ _ _ .empty hrun rfl⟩

end Interpreter

end KLang
