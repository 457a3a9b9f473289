import KLang.Proofs.Evaluation.Scope

/-!
# What is written is what is read

A name is read where it is bound in the body, or else globally. Assignments and steps write there
and bind nothing; a declaration writes in the body, or globally at the top level. Whatever fails
writes nothing.

* `State.Reads`, `State.Unbound`: the variable that a name is read from.
* `State.Updates`, `State.Declares`: the variable that is written, and that all others are left
  alone.
* `State.Refuses`: why a name that is bound to no variable is not written.
* `writes_resolve_like_reads`: all ways to write a variable.
-/

namespace KLang

/-- The second table has the value at the name, behind all others if the name is new, and is the
first one otherwise. -/
structure Table.Binds {α : Type} (t : Table α) (name : String) (value : α) (t' : Table α) :
    Prop where
  names : t'.names = if name ∈ t.names then t.names else t.names ++ [name]
  value : t'.get? name = some value
  others : ∀ n, n ≠ name → t'.get? n = t.get? n

theorem Table.binds_insert {α : Type} (t : Table α) (name : String) (value : α) :
    t.Binds name value (t.insert name value) where
  names := t.names_insert name value
  value := by rw [get?_insert, if_pos rfl]
  others n hn := by rw [get?_insert, if_neg hn]

namespace State

/-! ## Reading -/

/-- The variable that the name is read from has the value. -/
inductive Reads (s : State) (name : String) (value : Value) : Prop
  | inner {t : Table Value} (hs : s.locals = some t) (h : t.get? name = some value)
  | outer (hs : ∀ t, s.locals = some t → name ∉ t.names) (h : s.globals.get? name = some value)

/-- The name is bound neither in the body nor globally. -/
def Unbound (s : State) (name : String) : Prop :=
  (∀ t, s.locals = some t → name ∉ t.names) ∧ name ∉ s.globals.names

variable {s s' : State} {name : String} {value : Value}

theorem inner_or_outer (locals : Option (Table Value)) (name : String) :
    (∃ t, locals = some t ∧ name ∈ t.names) ∨ ∀ t, locals = some t → name ∉ t.names :=
  (Classical.em _).imp_right fun h t ht hname => h ⟨t, ht, hname⟩

theorem not_mem_names_iff {t : Table Value} : name ∉ t.names ↔ t.get? name = none := by
  rw [← t.get?_isSome, Option.not_isSome_iff_eq_none]

theorem lookup?_of_inner {t : Table Value} (hs : s.locals = some t)
    (h : t.get? name = some value) : s.lookup? name = some value := by
  rw [lookup?, hs, Option.bind_some, h]

theorem lookup?_of_outer (hs : ∀ t, s.locals = some t → name ∉ t.names) :
    s.lookup? name = s.globals.get? name := by
  have hinner : s.locals.bind (·.get? name) = none := by
    cases hl : s.locals with
    | none => rfl
    | some t => exact not_mem_names_iff.mp (hs t hl)
  rw [lookup?, hinner]

theorem reads_iff : s.Reads name value ↔ s.lookup? name = some value := by
  constructor
  · rintro (⟨hs, h⟩ | ⟨hs, h⟩)
    · exact lookup?_of_inner hs h
    · exact (lookup?_of_outer hs).trans h
  · intro h
    obtain ⟨t, hs, hname⟩ | hs := inner_or_outer s.locals name
    · obtain ⟨v, hv⟩ := Option.isSome_iff_exists.mp ((t.get?_isSome name).mpr hname)
      obtain rfl := Option.some.inj ((lookup?_of_inner hs hv).symm.trans h)
      exact .inner hs hv
    · exact .outer hs ((lookup?_of_outer hs).symm.trans h)

theorem unbound_iff : s.Unbound name ↔ s.lookup? name = none := by
  constructor
  · rintro ⟨hs, hname⟩
    exact (lookup?_of_outer hs).trans (not_mem_names_iff.mp hname)
  · intro h
    have hs (t : Table Value) (ht : s.locals = some t) : name ∉ t.names := by
      rw [not_mem_names_iff]
      cases hv : t.get? name with
      | none => rfl
      | some v => cases (lookup?_of_inner ht hv).symm.trans h
    exact ⟨hs, not_mem_names_iff.mpr ((lookup?_of_outer hs).symm.trans h)⟩

theorem Unbound.not_reads (h : s.Unbound name) : ¬ s.Reads name value := fun hreads => by
  cases (unbound_iff.mp h).symm.trans (reads_iff.mp hreads)

theorem Reads.unique {value' : Value} (h : s.Reads name value) (h' : s.Reads name value') :
    value = value' := Option.some.inj ((reads_iff.mp h).symm.trans (reads_iff.mp h'))

theorem unbound_or_reads (s : State) (name : String) :
    s.Unbound name ∨ (∃ x, s.Reads name (.number x)) ∨ ∃ v, s.Reads name v ∧ v.type ≠ .number := by
  cases h : s.lookup? name with
  | none => exact .inl (unbound_iff.mpr h)
  | some v =>
    have hreads := reads_iff.mpr h
    cases v with
    | number x => exact .inr (.inl ⟨x, hreads⟩)
    | nil | string => exact .inr (.inr ⟨_, hreads, nofun⟩)

/-! ## Writing -/

/-- The second state has another value for the variable that the name is read from in the first one,
and no other difference. -/
inductive Updates (s : State) (name : String) (value : Value) : State → Prop
  | inner {t t' : Table Value} (hs : s.locals = some t) (hname : name ∈ t.names)
      (h : t.Binds name value t') : Updates s name value { s with locals := some t' }
  | outer {t' : Table Value} (hs : ∀ t, s.locals = some t → name ∉ t.names)
      (hname : name ∈ s.globals.names) (h : s.globals.Binds name value t') :
      Updates s name value { s with globals := t' }

/-- The second state has the value at the name in the body, at the top level globally, and no other
difference. -/
inductive Declares (s : State) (name : String) (value : Value) : State → Prop
  | inner {t t' : Table Value} (hs : s.locals = some t) (h : t.Binds name value t') :
      Declares s name value { s with locals := some t' }
  | outer {t' : Table Value} (hs : s.locals = none) (h : s.globals.Binds name value t') :
      Declares s name value { s with globals := t' }

theorem declares_declare (s : State) (name : String) (value : Value) :
    s.Declares name value (s.declare name value) := by
  obtain ⟨i, locals, output⟩ := s
  cases locals with
  | none => exact .outer rfl (Table.binds_insert _ name value)
  | some t => exact .inner rfl (Table.binds_insert t name value)

theorem updates_store (h : ¬ s.Unbound name) (value : Value) :
    s.Updates name value (s.store name value) := by
  obtain ⟨i, locals, output⟩ := s
  obtain ⟨t, rfl, hname⟩ | hs := inner_or_outer locals name
  · have hstore : store ⟨i, some t, output⟩ name value =
        ⟨i, some (t.insert name value), output⟩ := if_pos ((t.contains_iff name).mpr hname)
    rw [hstore]
    exact .inner rfl hname (Table.binds_insert t name value)
  · have hname : name ∈ i.globals.names :=
      Classical.byContradiction fun hname => h ⟨hs, hname⟩
    have hstore : store ⟨i, locals, output⟩ name value =
        ⟨{ i with globals := i.globals.insert name value }, locals, output⟩ := by
      cases locals with
      | none => rfl
      | some t => exact if_neg (mt (t.contains_iff name).mp (hs t rfl))
    rw [hstore]
    exact .outer hs hname (Table.binds_insert _ name value)

theorem Declares.reads (h : s.Declares name value s') : s'.Reads name value := by
  cases h with
  | inner hs h => exact .inner rfl h.value
  | outer hs h => exact .outer (fun t ht => by cases hs.symm.trans ht) h.value

theorem Updates.reads (h : s.Updates name value s') : s'.Reads name value := by
  cases h with
  | inner hs hname h => exact .inner rfl h.value
  | outer hs hname h => exact .outer hs h.value

theorem Updates.sameNames (h : s.Updates name value s') : SameNames s s' := by
  cases h with
  | inner hs hname h =>
    have hnames := h.names.trans (if_pos hname)
    exact ⟨by rw [hs]; exact congrArg some hnames, rfl⟩
  | outer hs hname h => exact ⟨rfl, h.names.trans (if_pos hname)⟩

/-! ## Names of constants -/

/-- The name is that of a constant of an imported module. -/
def IsConstant (s : State) (name : String) : Prop :=
  ∃ library ∈ s.imported.values, name ∈ library.constants.names

/-- Why a name that is bound to no variable is not written. -/
inductive Refuses (s : State) (name : String) : Fault → Prop
  | readOnly (h : s.IsConstant name) : Refuses s name (.readOnly ⟨none, name⟩)
  | undefined (h : ¬ s.IsConstant name) : Refuses s name (.undefinedVariable name)

theorem constant?_isSome : (s.constant? name).isSome ↔ s.IsConstant name := by
  simp only [Interpreter.constant?, List.findSome?_isSome_iff, Table.get?_isSome, IsConstant]

theorem refuses_unassignable (s : State) (name : String) :
    s.Refuses name (s.unassignable name) := by
  unfold unassignable
  split
  · rename_i x hx
    exact .readOnly (constant?_isSome.mp (by rw [hx]; rfl))
  · rename_i hnone
    exact .undefined (mt constant?_isSome.mpr (by rw [hnone]; simp))

end State

open State

/-- The evaluation is stopped. -/
def Eval.Fails {α : Type} (x : Eval α) (s : State) : Prop := ∃ stop, x.verdict s = .error stop

theorem Eval.not_fails_of_ok {α : Type} {x : Eval α} {s : State} {a : α} (h : x.verdict s = .ok a) :
    ¬ x.Fails s := fun ⟨_, hstop⟩ => by cases h.symm.trans hstop

/-! ## Names, steps, assignments and declarations -/

theorem verdict_evalName (l : Option Location) {s : State} {name : String} {value : Value}
    (h : s.Reads name value) : (evalName l ⟨none, name⟩).verdict s = .ok value := by
  rw [evalName, Eval.verdict_get_bind]
  simp only [reads_iff.mp h]
  rfl

section Step

variable (l : Option Location) (op : PostfixOperator) {s : State} {name : String}

theorem evalStep_of_number {x : Number} (h : s.Reads name (.number x)) :
    (evalStep l op name).verdict s = .ok (.number x) ∧
      s.Updates name (.number (x.step op)) ((evalStep l op name).after s) := by
  have hlookup := reads_iff.mp h
  have hbound : ¬ s.Unbound name := fun hunbound => hunbound.not_reads h
  rw [evalStep, Eval.verdict_get_bind, Eval.after_get_bind]
  simp only [hlookup]
  exact ⟨rfl, updates_store hbound _⟩

theorem evalStep_of_unbound (h : s.Unbound name) :
    (∃ f, s.Refuses name f ∧ (evalStep l op name).verdict s = .error (.error ⟨f, l, []⟩)) ∧
      (evalStep l op name).after s = s := by
  rw [evalStep, Eval.verdict_get_bind, Eval.after_get_bind]
  simp only [unbound_iff.mp h]
  exact ⟨⟨_, refuses_unassignable s name, rfl⟩, rfl⟩

theorem evalStep_of_other {v : Value} (h : s.Reads name v) (hv : v.type ≠ .number) :
    (evalStep l op name).verdict s = .error (.error ⟨.postfixOperand name v.type, l, []⟩) ∧
      (evalStep l op name).after s = s := by
  rw [evalStep, Eval.verdict_get_bind, Eval.after_get_bind]
  simp only [reads_iff.mp h]
  cases v with
  | number x => exact absurd rfl hv
  | nil | string => exact ⟨rfl, rfl⟩

end Step

section Assign

variable (l : Option Location) {s : State} {name : String} (value : Value)

theorem assignTo_of_bound (h : ¬ s.Unbound name) :
    (assignTo l ⟨none, name⟩ value).verdict s = .ok () ∧
      s.Updates name value ((assignTo l ⟨none, name⟩ value).after s) := by
  have hbound : s.lookup? name ≠ none := mt unbound_iff.mpr h
  obtain ⟨v, hv⟩ := Option.ne_none_iff_exists'.mp hbound
  simp only [assignTo]
  rw [Eval.verdict_get_bind, Eval.after_get_bind]
  simp only [hv]
  exact ⟨rfl, updates_store h value⟩

theorem assignTo_of_unbound (h : s.Unbound name) :
    (∃ f, s.Refuses name f ∧
      (assignTo l ⟨none, name⟩ value).verdict s = .error (.error ⟨f, l, []⟩)) ∧
      (assignTo l ⟨none, name⟩ value).after s = s := by
  simp only [assignTo]
  rw [Eval.verdict_get_bind, Eval.after_get_bind]
  simp only [unbound_iff.mp h]
  exact ⟨⟨_, refuses_unassignable s name, rfl⟩, rfl⟩

theorem assignTo_outcome (s : State) (module : Option String) (name : String) :
    let x := assignTo l ⟨module, name⟩ value
    ((module = none ∧ ¬ s.Unbound name) ∧ x.verdict s = .ok () ∧ s.Updates name value (x.after s)) ∨
      ((module ≠ none ∨ s.Unbound name) ∧ x.after s = s ∧
        ∃ f, x.verdict s = .error (.error ⟨f, l, []⟩) ∧ (module = none → s.Refuses name f) ∧
          (module ≠ none → f = .readOnly ⟨module, name⟩)) := by
  intro x
  cases module with
  | some m => exact .inr ⟨.inl nofun, rfl, _, rfl, nofun, fun _ => rfl⟩
  | none =>
    by_cases h : s.Unbound name
    · obtain ⟨⟨f, hf, hverdict⟩, hafter⟩ := assignTo_of_unbound l value h
      exact .inr ⟨.inr h, hafter, f, hverdict, fun _ => hf, fun hne => absurd rfl hne⟩
    · obtain ⟨hverdict, hupdates⟩ := assignTo_of_bound l value h
      exact .inl ⟨⟨rfl, h⟩, hverdict, hupdates⟩

end Assign

/-! ## Statements that write -/

namespace Eval

variable {α β : Type} {x : Eval α} {s : State}

theorem verdict_then (x : Eval α) (b : β) (s : State) :
    (x >>= fun _ => pure b).verdict s = (x.verdict s).map fun _ => b := by
  rw [verdict_bind]
  cases x.verdict s <;> rfl

theorem after_then (x : Eval α) (b : β) (s : State) :
    (x >>= fun _ => pure b).after s = x.after s := by
  cases h : x.verdict s with
  | ok a => rw [after_bind_of_ok h]; rfl
  | error stop => rw [after_bind_of_error h]

end Eval

section Statement

variable (world : World) (enter : Enter) (rounds : Nat) (s : State) (name : String)
  (l : Option Location) (e : Expr)

theorem exec_declare (kind : Kind) :
    let value := evalExpr world enter e
    let declaration := execStatement world enter rounds (.declare l kind name e)
    (∃ v w, value.verdict s = .ok v ∧ v.coerce kind = .ok w ∧
      declaration.verdict s = .ok .next ∧
      (value.after s).Declares name w (declaration.after s) ∧
      ∀ l', (evalName l' ⟨none, name⟩).verdict (declaration.after s) = .ok w) ∨
    (∃ stop, declaration.verdict s = .error stop ∧
      (value.verdict s = .error stop ∨
        ∃ v f, value.verdict s = .ok v ∧ v.coerce kind = .error f ∧ stop = .error ⟨f, l, []⟩) ∧
      declaration.after s = value.after s) := by
  intro value declaration
  simp only [declaration, execStatement]
  cases hv : value.verdict s with
  | error stop =>
    rw [Eval.verdict_bind, hv, Eval.after_bind_of_error hv]
    exact .inr ⟨stop, rfl, .inl rfl, rfl⟩
  | ok v =>
    rw [Eval.verdict_bind, hv, Eval.after_bind_of_ok hv]
    dsimp only [Except.bind]
    cases hw : v.coerce kind with
    | error f => exact .inr ⟨_, rfl, .inr ⟨v, f, rfl, hw, rfl⟩, rfl⟩
    | ok w =>
      have hdeclares := declares_declare (value.after s) name w
      exact .inl ⟨v, w, rfl, hw, rfl, hdeclares, fun l' => verdict_evalName l' hdeclares.reads⟩

theorem exec_assign (l' : Option Location) (target : Name) :
    let value := evalExpr world enter e
    let assignment := execStatement world enter rounds (.assign l l' target e)
    (∀ stop, value.verdict s = .error stop →
      assignment.verdict s = .error stop ∧ assignment.after s = value.after s) ∧
    ∀ v, value.verdict s = .ok v →
      assignment.verdict s = ((assignTo l target v).verdict (value.after s)).map (fun _ => .next) ∧
      assignment.after s = (assignTo l target v).after (value.after s) := by
  intro value assignment
  simp only [assignment, execStatement]
  refine ⟨fun stop hv => ?_, fun v hv => ?_⟩
  · rw [Eval.verdict_bind, hv, Eval.after_bind_of_error hv]
    exact ⟨rfl, rfl⟩
  · rw [Eval.verdict_bind, hv, Eval.after_bind_of_ok hv]
    exact ⟨Eval.verdict_then _ _ _, Eval.after_then _ _ _⟩

end Statement

/-- **What is written is what is read.** A declaration that succeeds binds the name to the coerced
value, in the body or at the top level, and the name is read as that value. An assignment or a step
that succeeds gives another value to the variable that the name was read from, and binds nothing. An
assignment fails, once its expression has a value, just for a name in a module and for one that is
bound to no variable, and a step for one that is bound to no number. What fails leaves the state as
its expression has left it. -/
theorem writes_resolve_like_reads (world : World) (enter : Enter) (rounds : Nat) (s : State)
    (name : String) (l : Option Location) :
    (∀ kind e,
      let value := evalExpr world enter e
      let declaration := execStatement world enter rounds (.declare l kind name e)
      (∃ v w, value.verdict s = .ok v ∧ v.coerce kind = .ok w ∧
        declaration.verdict s = .ok .next ∧
        (value.after s).Declares name w (declaration.after s) ∧
        ∀ l', (evalName l' ⟨none, name⟩).verdict (declaration.after s) = .ok w) ∨
      (∃ stop, declaration.verdict s = .error stop ∧
        (value.verdict s = .error stop ∨
          ∃ v f, value.verdict s = .ok v ∧ v.coerce kind = .error f ∧ stop = .error ⟨f, l, []⟩) ∧
        declaration.after s = value.after s)) ∧
    (∀ l' module e,
      let value := evalExpr world enter e
      let assignment := execStatement world enter rounds (.assign l l' ⟨module, name⟩ e)
      let t := value.after s
      (∀ stop, value.verdict s = .error stop →
        assignment.verdict s = .error stop ∧ assignment.after s = t) ∧
      ∀ v, value.verdict s = .ok v →
        (assignment.Fails s ↔ module ≠ none ∨ t.Unbound name) ∧
        (¬ assignment.Fails s → assignment.verdict s = .ok .next ∧
          t.Updates name v (assignment.after s) ∧ SameNames t (assignment.after s) ∧
          ∀ l', (evalName l' ⟨none, name⟩).verdict (assignment.after s) = .ok v) ∧
        (assignment.Fails s → assignment.after s = t ∧
          ∃ f, assignment.verdict s = .error (.error ⟨f, l, []⟩) ∧
            (module = none → t.Refuses name f) ∧
            (module ≠ none → f = .readOnly ⟨module, name⟩))) ∧
    ∀ op,
      let step := evalExpr world enter (.step l op name)
      (step.Fails s ↔ s.Unbound name ∨ ∃ v, s.Reads name v ∧ v.type ≠ .number) ∧
      (¬ step.Fails s → ∃ x, s.Reads name (.number x) ∧ step.verdict s = .ok (.number x) ∧
        s.Updates name (.number (match op with | .inc => x + 1 | .dec => x - 1)) (step.after s) ∧
        SameNames s (step.after s)) ∧
      (step.Fails s → step.after s = s) ∧
      (s.Unbound name → ∃ f, s.Refuses name f ∧ step.verdict s = .error (.error ⟨f, l, []⟩)) := by
  refine ⟨fun kind e => exec_declare world enter rounds s name l e kind, fun l' module e => ?_,
    fun op => ?_⟩
  · obtain ⟨hstopped, hassigned⟩ := exec_assign world enter rounds s l e l' ⟨module, name⟩
    refine ⟨hstopped, fun v hv => ?_⟩
    obtain ⟨hverdict, hafter⟩ := hassigned v hv
    rw [hafter]
    obtain ⟨⟨hmodule, hbound⟩, hok, hupdates⟩ | ⟨hrefused, hsame, f, herror, hf⟩ :=
      assignTo_outcome l v ((evalExpr world enter e).after s) module name
    · rw [hok] at hverdict
      have hnot := Eval.not_fails_of_ok hverdict
      refine ⟨iff_of_false hnot ?_, fun _ => ⟨hverdict, hupdates, hupdates.sameNames,
        fun l' => verdict_evalName l' hupdates.reads⟩, fun h => absurd h hnot⟩
      rintro (hmodule' | hunbound)
      · exact hmodule' hmodule
      · exact hbound hunbound
    · rw [herror] at hverdict
      exact ⟨iff_of_true ⟨_, hverdict⟩ hrefused, fun h => absurd ⟨_, hverdict⟩ h,
        fun _ => ⟨hsame, f, hverdict, hf⟩⟩
  · intro step
    have hstep : step = evalStep l op name := rfl
    rw [hstep]
    obtain hunbound | ⟨x, hreads⟩ | ⟨v, hreads, htype⟩ := unbound_or_reads s name
    · obtain ⟨⟨f, hf, hverdict⟩, hafter⟩ := evalStep_of_unbound l op hunbound
      exact ⟨iff_of_true ⟨_, hverdict⟩ (.inl hunbound), fun h => absurd ⟨_, hverdict⟩ h,
        fun _ => hafter, fun _ => ⟨f, hf, hverdict⟩⟩
    · obtain ⟨hverdict, hupdates⟩ := evalStep_of_number l op hreads
      have hnot := Eval.not_fails_of_ok hverdict
      refine ⟨iff_of_false hnot ?_, fun _ => ⟨x, hreads, hverdict, ?_, hupdates.sameNames⟩,
        fun h => absurd h hnot, fun h => absurd hreads h.not_reads⟩
      · rintro (h | ⟨w, hw, htype⟩)
        · exact h.not_reads hreads
        · exact htype (congrArg Value.type (hw.unique hreads))
      · cases op <;> exact hupdates
    · obtain ⟨hverdict, hafter⟩ := evalStep_of_other l op hreads htype
      exact ⟨iff_of_true ⟨_, hverdict⟩ (.inr ⟨v, hreads, htype⟩), fun h => absurd ⟨_, hverdict⟩ h,
        fun _ => hafter, fun h => absurd hreads h.not_reads⟩

end KLang
