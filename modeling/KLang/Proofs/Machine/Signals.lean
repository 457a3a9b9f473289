import KLang.Proofs.Machine.Calls

/-!
# Errors and returned values

An error passes all frames, and a returned value passes all frames up to an activation. Nothing else
happens on the way: no frame begins anything, and the interpreter and what has been written stay.

A frame that does not wait for an outcome hands it on, and what waits for a value does not wait for
an error or a returned value. So from where one is there, the machine has no other way than through
the frames one by one. Backwards, a returned value at hand was either handed on by a frame of the
same body, or has come from a return; so every one comes from a return in its body.

* `Config.leads_of_pass`: what passes some frames goes through them one by one and nowhere else.
* `Config.returns_of_leads`: a returned value comes from a return in the same body.
* `Config.signals_stop`: what errors and returned values make of a run.
-/

namespace KLang

theorem activations_append (k k' : List Frame) :
    activations (k ++ k') = activations k ++ activations k' := by
  induction k with
  | nil => rfl
  | cons F k ih => cases F <;> simp [activations, ih]

/-- The error that has passed some frames. -/
def RuntimeError.past (e : RuntimeError) (k : List Frame) : RuntimeError :=
  { e with trace := e.trace ++ activations k }

theorem RuntimeError.past_nil (e : RuntimeError) : e.past [] = e := by
  simp [past, activations]

theorem RuntimeError.past_append (e : RuntimeError) (k k' : List Frame) :
    (e.past k).past k' = e.past (k ++ k') := by
  simp [past, activations_append]

variable (limits : Limits) (world : World)

/-! ## Passing a frame -/

namespace Frame

variable (s : State)

theorem resume_error (F : Frame) (e : RuntimeError) :
    ∃ locals, ∀ depth, F.resume limits world depth s (.stop (.error e)) =
      ⟨.stop (.error (e.past [F])), [], s.inside locals⟩ := by
  cases F with
  | body outside => exact ⟨outside, fun _ => by simp [resume, RuntimeError.past, activations]⟩
  | activation l f outside =>
    exact ⟨outside, fun _ => by simp [resume, RuntimeError.past, activations, Stop.through]⟩
  | _ => exact ⟨s.locals, fun _ => by simp [resume, RuntimeError.past, activations, State.inside]⟩

theorem resume_returned {F : Frame} (h : activations [F] = []) (v : Value) :
    ∃ locals, ∀ depth, F.resume limits world depth s (.flow (.returned v)) =
      ⟨.flow (.returned v), [], s.inside locals⟩ := by
  cases F with
  | body outside => exact ⟨outside, fun _ => rfl⟩
  | activation l f outside => exact nomatch h
  | _ => exact ⟨s.locals, fun _ => rfl⟩

end Frame

namespace Config

variable {limits world} {m m' : Config}

/-! ## Passing frames -/

/-- What passes each of some frames and changes only the variables of the body on the way goes
through them one by one, and nowhere else before it has passed them all. -/
theorem leads_of_pass (c : List Frame → Control) (inner k : List Frame) (s : State)
    (h : ∀ gone F rest s, inner = gone ++ F :: rest → ∃ locals, ∀ k,
      step limits world ⟨c gone, F :: k, s⟩ = some ⟨c (gone ++ [F]), k, s.inside locals⟩) :
    ∃ locals, Leads limits world ⟨c [], inner ++ k, s⟩ ⟨c inner, k, s.inside locals⟩ ∧
      ∀ m, Leads limits world ⟨c [], inner ++ k, s⟩ m →
        (∃ gone rest locals, inner = gone ++ rest ∧ m = ⟨c gone, rest ++ k, s.inside locals⟩) ∨
          Leads limits world ⟨c inner, k, s.inside locals⟩ m := by
  induction inner generalizing c s with
  | nil => exact ⟨s.locals, .refl, fun m hm => .inr hm⟩
  | cons F inner ih =>
    obtain ⟨locals, hstep⟩ := h [] F inner s rfl
    have hrest (gone : List Frame) (F' : Frame) (rest : List Frame) (s : State)
        (hinner : inner = gone ++ F' :: rest) := h (F :: gone) F' rest s (by rw [hinner]; rfl)
    obtain ⟨locals', hleads, hall⟩ := ih (fun gone => c (F :: gone)) (s.inside locals) hrest
    refine ⟨locals', .head (hstep (inner ++ k)) hleads, fun m hm => ?_⟩
    obtain rfl | ⟨m', hfirst, hm⟩ := Relation.ReflTransGen.cases_head hm
    · exact .inl ⟨[], F :: inner, s.locals, rfl, rfl⟩
    · obtain rfl := Option.some.inj ((hstep (inner ++ k)).symm.trans hfirst)
      obtain ⟨gone, rest, locals'', hinner, hm⟩ | hm := hall m hm
      · exact .inl ⟨F :: gone, rest, locals'', by rw [hinner]; rfl, hm⟩
      · exact .inr hm

variable (limits world) in
theorem error_passes (e : RuntimeError) (k : List Frame) (s : State) :
    ∃ locals, Leads limits world ⟨.stop (.error e), k, s⟩
        ⟨.stop (.error (e.past k)), [], s.inside locals⟩ ∧
      ∀ m, Leads limits world ⟨.stop (.error e), k, s⟩ m → ∃ gone rest locals,
        k = gone ++ rest ∧ m = ⟨.stop (.error (e.past gone)), rest, s.inside locals⟩ := by
  have hpass (gone : List Frame) (F : Frame) (rest : List Frame) (s : State)
      (_ : k = gone ++ F :: rest) : ∃ locals, ∀ k,
        step limits world ⟨.stop (.error (e.past gone)), F :: k, s⟩ =
          some ⟨.stop (.error (e.past (gone ++ [F]))), k, s.inside locals⟩ := by
    obtain ⟨locals, hresume⟩ := F.resume_error limits world s (e.past gone)
    refine ⟨locals, fun k => ?_⟩
    simp only [step, Control.begin, hresume, RuntimeError.past_append]
    rfl
  obtain ⟨locals, hleads, hall⟩ :=
    leads_of_pass (fun gone => .stop (.error (e.past gone))) k [] s hpass
  simp only [List.append_nil, RuntimeError.past_nil] at hleads hall
  refine ⟨locals, hleads, fun m hm => ?_⟩
  obtain hm | hm := hall m hm
  · exact hm
  · exact ⟨k, [], locals, (List.append_nil k).symm, eq_of_finished limits world rfl hm⟩

variable (limits world) in
theorem returned_passes (v : Value) {inner : List Frame} (h : activations inner = [])
    (k : List Frame) (s : State) :
    ∃ locals, Leads limits world ⟨.flow (.returned v), inner ++ k, s⟩
        ⟨.flow (.returned v), k, s.inside locals⟩ ∧
      ∀ m, Leads limits world ⟨.flow (.returned v), inner ++ k, s⟩ m →
        (∃ gone rest locals, inner = gone ++ rest ∧
          m = ⟨.flow (.returned v), rest ++ k, s.inside locals⟩) ∨
        Leads limits world ⟨.flow (.returned v), k, s.inside locals⟩ m := by
  refine leads_of_pass (fun _ => .flow (.returned v)) inner k s fun gone F rest s hinner => ?_
  have hF : activations [F] = [] := by
    rw [hinner, activations_append] at h
    have hrest := activations_append [F] rest
    rw [List.singleton_append, (List.append_eq_nil_iff.mp h).2] at hrest
    exact (List.append_eq_nil_iff.mp hrest.symm).1
  obtain ⟨locals, hresume⟩ := F.resume_returned limits world s hF v
  refine ⟨locals, fun k => ?_⟩
  simp only [step, Control.begin, hresume]
  rfl

end Config

/-! ## Where returned values come from -/

theorem Expr.begin_not_returned (e : Expr) (s : State) (v : Value) :
    (e.begin s).control ≠ .flow (.returned v) := by
  cases e <;> first | exact perform_control_ne (by simp) (by simp) | simp [begin]

theorem Statement.begin_returned {t : Statement} {s : State} {v : Value}
    (h : (t.begin limits s).control = .flow (.returned v)) :
    ∃ l, t = .returnValue l none ∧ v = .nil ∧ (t.begin limits s).frames = [] := by
  cases t with
  | returnValue l value =>
    cases value with
    | none =>
      obtain rfl : Value.nil = v := by simpa [begin] using h
      exact ⟨l, rfl, rfl, rfl⟩
    | some e => cases h
  | importModule l name => exact absurd h (perform_control_ne (by simp) (by simp))
  | _ => cases h

theorem Control.begin_returned {c : Control} {s : State} {move : Move} {v : Value}
    (h : c.begin limits s = some move) (hv : move.control = .flow (.returned v)) :
    ∃ l, c = .statement (.returnValue l none) ∧ v = .nil ∧ move.frames = [] := by
  revert h
  fun_cases Control.begin limits s c <;> intro h <;>
    simp only [Option.some.injEq, reduceCtorEq] at h
  all_goals subst h
  -- an expression, a call with a wrong number of arguments, and a statement
  case case1 e => exact absurd hv (e.begin_not_returned s v)
  case case3 => exact absurd hv (perform_control_ne (by simp) (by simp))
  case case9 t =>
    obtain ⟨l, rfl, hnil, hframes⟩ := Statement.begin_returned limits hv
    exact ⟨l, rfl, hnil, hframes⟩
  all_goals cases hv

theorem Frame.resume_eq_returned {F : Frame} {depth : Nat} {s : State} {c : Control} {v : Value}
    (h : (F.resume limits world depth s c).control = .flow (.returned v)) :
    (F = .result ∧ c = .value v ∨ activations [F] = [] ∧ c = .flow (.returned v)) ∧
      (F.resume limits world depth s c).frames = [] := by
  revert h
  fun_cases Frame.resume limits world depth s F c <;> intro h <;>
    try exact absurd h (perform_control_ne (by simp) (by simp))
  all_goals simp at h
  all_goals subst h
  -- the frame of a return, that of a block, and those that let everything else pass
  case case12 => exact ⟨.inl ⟨rfl, rfl⟩, rfl⟩
  case case20 => exact ⟨.inr ⟨rfl, rfl⟩, rfl⟩
  case case23 hactivation _ =>
    refine ⟨.inr ⟨?_, rfl⟩, rfl⟩
    cases F with
    | activation l f outside => exact (hactivation l f outside _ rfl rfl).elim
    | _ => rfl

/-- The machine executes a return of a value, below which there are some frames. -/
inductive Config.Returns (v : Value) (k : List Frame) : Config → Prop
  | nothing (l : Option Location) (s : State) (h : v = .nil) :
      Returns v k ⟨.statement (.returnValue l none), k, s⟩
  | value (s : State) : Returns v k ⟨.value v, .result :: k, s⟩

namespace Config

variable {limits world} {m m' : Config}

theorem Returns.step {v : Value} {k : List Frame} (h : Returns v k m) :
    m.step limits world = some ⟨.flow (.returned v), k, m.state⟩ := by
  cases h with
  | nothing l s hnil =>
    rw [hnil]
    rfl
  | value s => rfl

theorem step_returned {v : Value} (h : m.step limits world = some m')
    (hv : m'.control = .flow (.returned v)) :
    Returns v m'.frames m ∨ m.control = .flow (.returned v) ∧
      ∃ gone, activations gone = [] ∧ m.frames = gone ++ m'.frames := by
  obtain ⟨c, k, s⟩ := m
  simp only [step] at h
  split at h
  case h_1 move hmove =>
    obtain rfl := Option.some.inj h
    obtain ⟨l, rfl, hnil, hframes⟩ := Control.begin_returned limits hmove hv
    have hk : (move.on k).frames = k := by simp [Move.on, hframes]
    rw [hk]
    exact .inl (.nothing l s hnil)
  case h_2 =>
    cases k with
    | nil => exact nomatch h
    | cons F k =>
      obtain rfl := Option.some.inj h
      obtain ⟨hfrom, hframes⟩ := Frame.resume_eq_returned limits world hv
      have hk : ((F.resume limits world (activations k).length s c).on k).frames = k := by
        simp [Move.on, hframes]
      rw [hk]
      obtain ⟨rfl, rfl⟩ | ⟨hF, rfl⟩ := hfrom
      · exact .inl (.value s)
      · exact .inr ⟨rfl, [F], hF, rfl⟩

/-- A returned value comes from a return in the same body. -/
theorem returns_of_leads {i : Interpreter} {program : Program} {v : Value}
    (h : Leads limits world (start i program) m) (hv : m.control = .flow (.returned v)) :
    ∃ gone m', activations gone = [] ∧ Leads limits world (start i program) m' ∧
      Returns v (gone ++ m.frames) m' := by
  induction h with
  | refl => simp [start] at hv
  | tail hleads hstep ih =>
    obtain hreturns | ⟨hpassed, gone, hgone, hframes⟩ := step_returned hstep hv
    · exact ⟨[], _, rfl, hleads, hreturns⟩
    · obtain ⟨gone', m', hgone', hm', hreturns⟩ := ih hpassed
      refine ⟨gone' ++ gone, m', ?_, hm', ?_⟩
      · rw [activations_append, hgone', hgone, List.append_nil]
      · rwa [List.append_assoc, ← hframes]

/-! ## Runs -/

theorem run_eq_of_leads {i : Interpreter} {program : Program} {r : Run}
    (h : Leads limits world (start i program) m) (hr : m.finished? = some r) :
    i.run limits world program = r := by
  obtain ⟨m', hm', hrun⟩ := leads_of_start limits world h
  rw [eq_of_finished limits world hr hm', hr] at hrun
  exact (Option.some.inj hrun).symm

theorem run_of_error {i : Interpreter} {program : Program} {e : RuntimeError} {k : List Frame}
    {s : State} (h : Leads limits world (start i program) ⟨.stop (.error e), k, s⟩) :
    i.run limits world program = ⟨.failed (e.past k), s.toInterpreter, s.output⟩ := by
  obtain ⟨locals, hend, -⟩ := error_passes limits world e k s
  exact run_eq_of_leads (h.trans hend) rfl

theorem run_of_returned {i : Interpreter} {program : Program} {v : Value} {k : List Frame}
    {s : State} (hk : activations k = [])
    (h : Leads limits world (start i program) ⟨.flow (.returned v), k, s⟩) :
    i.run limits world program = ⟨.returned v, s.toInterpreter, s.output⟩ := by
  obtain ⟨locals, hend, -⟩ := returned_passes limits world v hk [] s
  rw [List.append_nil] at hend
  exact run_eq_of_leads (h.trans hend) rfl

/-- What a call gives when its body is left: the value as the kind of the function holds it, or the
error that it does not. -/
def afterCall (l : Option Location) (f : Function) (v : Value) (k : List Frame) (s : State) :
    Config :=
  match v.coerce f.kind with
  | .ok w => ⟨.value w, k, s⟩
  | .error fault => ⟨.stop (.error ⟨fault, l, []⟩), k, s⟩

theorem step_activation_returned (l : Option Location) (f : Function)
    (outside : Option (Table Value)) (v : Value) (k : List Frame) (s : State) :
    step limits world ⟨.flow (.returned v), .activation l f outside :: k, s⟩ =
      some (afterCall l f v k (s.inside outside)) := by
  change some ((perform (Eval.ofExcept l (v.coerce f.kind)) .value (s.inside outside)).on k) = _
  unfold afterCall
  cases v.coerce f.kind <;> rfl

theorem returned_ends_call (v : Value) {inner : List Frame} (h : activations inner = [])
    (l : Option Location) (f : Function) (outside : Option (Table Value)) (k : List Frame)
    (s : State) :
    let m₀ : Config := ⟨.flow (.returned v), inner ++ .activation l f outside :: k, s⟩
    let m₁ := afterCall l f v k (s.inside outside)
    Leads limits world m₀ m₁ ∧ ∀ m, Leads limits world m₀ m →
      (∃ gone rest locals, inner = gone ++ rest ∧
        m = ⟨.flow (.returned v), rest ++ .activation l f outside :: k, s.inside locals⟩) ∨
      Leads limits world m₁ m := by
  intro m₀ m₁
  obtain ⟨locals, hleads, hall⟩ := returned_passes limits world v h
    (.activation l f outside :: k) s
  have hstep : step limits world
      ⟨.flow (.returned v), .activation l f outside :: k, s.inside locals⟩ = some m₁ :=
    step_activation_returned l f outside v k (s.inside locals)
  refine ⟨hleads.tail hstep, fun m hm => ?_⟩
  obtain hm | hm := hall m hm
  · exact .inl hm
  · obtain rfl | ⟨m', hfirst, hm⟩ := Relation.ReflTransGen.cases_head hm
    · exact .inl ⟨inner, [], locals, (List.append_nil inner).symm, rfl⟩
    · obtain rfl := Option.some.inj (hstep.symm.trans hfirst)
      exact .inr hm

theorem result_eq_returned {i : Interpreter} {program : Program} {v : Value} :
    (i.run limits world program).result = .returned v ↔ ∃ k m, activations k = [] ∧
      Leads limits world (start i program) m ∧ Returns v k m := by
  constructor
  · intro h
    obtain ⟨m, hleads, hrun⟩ := start_leads limits world i program
    obtain ⟨s, ⟨flow, rfl, hr⟩ | ⟨why, rfl, hr⟩⟩ := finished_eq_some hrun <;> rw [hr] at h
    · obtain rfl : flow = .returned v := by
        cases flow with
        | next => exact nomatch h
        | returned w => exact congrArg Flow.returned (Result.returned.inj h)
      obtain ⟨gone, m, hgone, hm, hreturns⟩ := returns_of_leads hleads rfl
      exact ⟨gone, m, hgone, hm, by rwa [List.append_nil] at hreturns⟩
    · cases why <;> exact nomatch h
  · rintro ⟨k, m, hk, hm, hreturns⟩
    rw [run_of_returned hk (hm.tail hreturns.step)]

variable (limits world) in
/-- **Errors and returned values stop everything they should and nothing else.** The machine comes
from every expression and every statement to what the evaluator gives there, and ends every run as
the evaluator does. On the way:

* When an error is there, it passes all frames, and nothing else happens any more. The run fails
  with this error, with what the interpreter is and what has been written when the error comes up.
* When a value is returned in the body of a function, it passes the frames of this body. Then the
  call, which the program has begun above the same frames, gives the value as the kind of the
  function holds it, or the error that it does not.
* A returned value comes from a return in the same body, and a program returns only what a return at
  its top level does. -/
theorem signals_stop (i : Interpreter) (program : Program) :
    let Reached := Leads limits world (start i program)
    (∀ depth e, CarriesOut limits world depth (.expr e) [] .value
      (evalExpr world (enterBody world limits.rounds depth) e)) ∧
    (∀ depth t, CarriesOut limits world depth (.statement t) [] .flow
      (execStatement world (enterBody world limits.rounds depth) limits.rounds t)) ∧
    (∃ m, Reached m ∧ m.finished? = some (i.run limits world program)) ∧
    (∀ e k s, Reached ⟨.stop (.error e), k, s⟩ →
      i.run limits world program = ⟨.failed (e.past k), s.toInterpreter, s.output⟩ ∧
      ∀ m, Leads limits world ⟨.stop (.error e), k, s⟩ m → ∃ gone rest locals,
        k = gone ++ rest ∧ m = ⟨.stop (.error (e.past gone)), rest, s.inside locals⟩) ∧
    (∀ v inner l f outside k s, activations inner = [] →
      let m₀ : Config := ⟨.flow (.returned v), inner ++ .activation l f outside :: k, s⟩
      let m₁ := afterCall l f v k (s.inside outside)
      Reached m₀ → Called limits world (start i program) l f k ∧ Leads limits world m₀ m₁ ∧
        ∀ m, Leads limits world m₀ m →
          (∃ gone rest locals, inner = gone ++ rest ∧
            m = ⟨.flow (.returned v), rest ++ .activation l f outside :: k, s.inside locals⟩) ∨
          Leads limits world m₁ m) ∧
    (∀ v k s, Reached ⟨.flow (.returned v), k, s⟩ → ∃ gone m, activations gone = [] ∧
      Reached m ∧ Returns v (gone ++ k) m) ∧
    ∀ v, (i.run limits world program).result = .returned v ↔
      ∃ k m, activations k = [] ∧ Reached m ∧ Returns v k m := by
  refine ⟨fun _ e => .expr .bindings e, fun _ t => .statement .bindings t,
    start_leads limits world i program, fun e k s h => ?_, fun v inner l f outside k s hk => ?_,
    fun v k s h => ?_, fun v => result_eq_returned⟩
  · obtain ⟨-, -, hall⟩ := error_passes limits world e k s
    exact ⟨run_of_error h, hall⟩
  · intro m₀ m₁ h
    have hcall := (called_of_leads h).frames.of_append.1 l f rfl
    exact ⟨hcall, returned_ends_call v hk l f outside k s⟩
  · exact returns_of_leads h rfl

end Config

end KLang
