import KLang.Proofs.Evaluation.Discipline

/-!
# What evaluations do to the state

* `Eval.verdict`, `Eval.after`: what an evaluation gives, and the state at which it ends or stops.
* `Reaches`: a relation leads from each state to the one after the evaluation.
* `Respects`: from related states, the evaluation gives the same and comes to related states.
-/

namespace KLang

namespace Eval

variable {α β : Type}

/-- What an evaluation gives, or why it stops. -/
def verdict (x : Eval α) (s : State) : Except Stop α :=
  match x.run s with
  | .ok a _ => .ok a
  | .error stop _ => .error stop

/-- The state at which an evaluation ends or stops. -/
def after (x : Eval α) (s : State) : State :=
  match x.run s with
  | .ok _ s => s
  | .error _ s => s

theorem run_eq (x : Eval α) (s : State) :
    x.run s = match x.verdict s with
      | .ok a => .ok a (x.after s)
      | .error stop => .error stop (x.after s) := by
  unfold verdict after
  cases x.run s <;> rfl

/-! ## Sequencing -/

theorem run_bind (x : Eval α) (f : α → Eval β) (s : State) :
    (x >>= f).run s = match x.verdict s with
      | .ok a => (f a).run (x.after s)
      | .error stop => .error stop (x.after s) := by
  change EStateM.bind x f s = _
  unfold verdict after EStateM.bind EStateM.run
  cases x s <;> rfl

theorem verdict_bind (x : Eval α) (f : α → Eval β) (s : State) :
    (x >>= f).verdict s = (x.verdict s).bind fun a => (f a).verdict (x.after s) := by
  rw [verdict, run_bind]
  cases x.verdict s <;> rfl

theorem verdict_bind_eq_ok {x : Eval α} {f : α → Eval β} {s : State} {b : β}
    (h : (x >>= f).verdict s = .ok b) :
    ∃ a, x.verdict s = .ok a ∧ (f a).verdict (x.after s) = .ok b := by
  rw [verdict_bind] at h
  cases hx : x.verdict s with
  | ok a => exact ⟨a, rfl, by rwa [hx] at h⟩
  | error stop =>
    rw [hx] at h
    cases h

theorem verdict_ofExcept {l : Option Location} {r : Except Fault α} {s : State} {a : α} :
    (ofExcept l r).verdict s = .ok a ↔ r = .ok a := by
  cases r with
  | ok b => exact ⟨fun h => congrArg _ (Except.ok.inj h), fun h => congrArg _ (Except.ok.inj h)⟩
  | error f => exact ⟨nofun, nofun⟩

theorem after_bind_of_ok {x : Eval α} {s : State} {a : α} (h : x.verdict s = .ok a)
    (f : α → Eval β) : (x >>= f).after s = (f a).after (x.after s) := by
  rw [after, run_bind, h]
  rfl

theorem after_bind_of_error {x : Eval α} {s : State} {stop : Stop} (h : x.verdict s = .error stop)
    (f : α → Eval β) : (x >>= f).after s = x.after s := by
  rw [after, run_bind, h]

theorem verdict_get_bind (f : State → Eval α) (s : State) :
    (get >>= f).verdict s = (f s).verdict s := rfl

theorem after_get_bind (f : State → Eval α) (s : State) : (get >>= f).after s = (f s).after s := rfl

/-! ## The parts that touch the state -/

theorem after_evalName (l : Option Location) (name : Name) (s : State) :
    (evalName l name).after s = s := by
  rw [evalName, after_get_bind]
  repeat' split
  all_goals rfl

theorem after_resolve (l : Option Location) (name : Name) (s : State) :
    (resolve l name).after s = s := by
  rw [resolve, after_get_bind]
  repeat' split
  all_goals rfl

theorem after_evalStep (l : Option Location) (op : PostfixOperator) (name : String) (s : State) :
    (evalStep l op name).after s = s ∨
      ∃ v, (s.lookup? name).isSome ∧ (evalStep l op name).after s = s.store name v := by
  rw [evalStep, after_get_bind]
  split
  · exact .inl rfl
  · rename_i x hx
    exact .inr ⟨_, by rw [hx]; rfl, rfl⟩
  · exact .inl rfl

theorem after_assignTo (l : Option Location) (target : Name) (value : Value) (s : State) :
    (assignTo l target value).after s = s ∨ (s.lookup? target.base).isSome ∧
      (assignTo l target value).after s = s.store target.base value := by
  unfold assignTo
  split
  · exact .inl rfl
  · rw [after_get_bind]
    split
    · exact .inl rfl
    · rename_i v hv
      exact .inr ⟨by rw [hv]; rfl, rfl⟩

theorem after_importModule (l : Option Location) (name : String) (s : State) :
    (importModule l name).after s = s ∨ ∃ library, Library.find? name = some library ∧
      (importModule l name).after s = s.addImport name library := by
  unfold importModule
  split
  · exact .inl rfl
  · exact .inr ⟨_, ‹_›, rfl⟩

theorem after_drawPlot (world : World) (l : Option Location) (script : List String) (s : State) :
    ∃ output, (drawPlot world l script).after s = { s with output } := by
  unfold drawPlot
  split
  · exact ⟨_, rfl⟩
  · exact ⟨_, rfl⟩

theorem run_tracing (site : CallSite) (body : Eval Flow) (s : State) :
    (tracing site body).run s = match body.run s with
      | .ok flow s => .ok flow s
      | .error stop s => .error (stop.through site) s := by
  change EStateM.tryCatch body _ s = _
  unfold EStateM.tryCatch EStateM.run
  cases body s <;> rfl

theorem verdict_tracing (site : CallSite) (body : Eval Flow) (s : State) :
    (tracing site body).verdict s = (body.verdict s).mapError (·.through site) := by
  rw [verdict, verdict, run_tracing]
  cases body.run s <;> rfl

theorem after_tracing (site : CallSite) (body : Eval Flow) (s : State) :
    (tracing site body).after s = body.after s := by
  rw [after, after, run_tracing]
  cases body.run s <;> rfl

theorem run_within (bindings : Table Value) (body : Eval Flow) (s : State) :
    (within bindings body).run s = match body.run (s.inside (some bindings)) with
      | .ok flow s' => .ok flow (s'.inside s.locals)
      | .error stop s' => .error stop (s'.inside s.locals) := by
  change EStateM.map Prod.fst (tryFinally' body fun _ => modify (·.inside s.locals))
    (s.inside (some bindings)) = _
  simp only [EStateM.map, tryFinally', EStateM.run]
  cases body (s.inside (some bindings)) <;> rfl

theorem verdict_within (bindings : Table Value) (body : Eval Flow) (s : State) :
    (within bindings body).verdict s = body.verdict (s.inside (some bindings)) := by
  rw [verdict, verdict, run_within]
  cases body.run (s.inside (some bindings)) <;> rfl

theorem after_within (bindings : Table Value) (body : Eval Flow) (s : State) :
    (within bindings body).after s =
      (body.after (s.inside (some bindings))).inside s.locals := by
  rw [after, after, run_within]
  cases body.run (s.inside (some bindings)) <;> rfl

end Eval

/-! ## Properties by relations between states -/

/-- The relation leads from each state to the one after the evaluation. -/
def Reaches (R : State → State → Prop) {α : Type} (x : Eval α) : Prop := ∀ s, R s (x.after s)

theorem Sequential.reaches {R : State → State → Prop} (refl : ∀ s, R s s)
    (trans : ∀ s s' s'', R s s' → R s' s'' → R s s'') : Sequential (Reaches R) where
  pure _ s := refl s
  stop _ s := refl s
  bind {_ _ x f} hx hf s := by
    cases h : x.verdict s with
    | ok a =>
      rw [Eval.after_bind_of_ok h]
      exact trans _ _ _ (hx s) (hf a _)
    | error stop =>
      rw [Eval.after_bind_of_error h]
      exact hx s

/-- From related states, the evaluation gives the same and comes to related states. -/
def Respects (T : State → State → Prop) {α : Type} (x : Eval α) : Prop :=
  ∀ s s', T s s' → x.verdict s' = x.verdict s ∧ T (x.after s) (x.after s')

theorem Sequential.respects (T : State → State → Prop) : Sequential (Respects T) where
  pure _ _ _ h := ⟨rfl, h⟩
  stop _ _ _ h := ⟨rfl, h⟩
  bind {_ _ x f} hx hf s s' h := by
    obtain ⟨hverdict, hafter⟩ := hx s s' h
    rw [Eval.verdict_bind, Eval.verdict_bind, hverdict]
    cases hs : x.verdict s with
    | ok a =>
      rw [Eval.after_bind_of_ok hs, Eval.after_bind_of_ok (hverdict.trans hs)]
      exact hf a _ _ hafter
    | error stop =>
      rw [Eval.after_bind_of_error hs, Eval.after_bind_of_error (hverdict.trans hs)]
      exact ⟨rfl, hafter⟩

theorem Respects.tracing {T : State → State → Prop} {body : Eval Flow} (h : Respects T body)
    (site : CallSite) : Respects T (tracing site body) := by
  intro s s' hs
  obtain ⟨hverdict, hafter⟩ := h s s' hs
  rw [Eval.verdict_tracing, Eval.verdict_tracing, Eval.after_tracing, Eval.after_tracing, hverdict]
  exact ⟨rfl, hafter⟩

end KLang
