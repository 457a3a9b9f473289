import KLang.Proofs.Evaluation.Frame
import KLang.Proofs.Table

/-!
# Variables stay in the body that declares them

* `SameNames`: a state binds the same names as another one, in the body and globally.
* `names_discipline`: expressions keep all names, and statements of a body keep the global names.
* `scopes_are_separate`: what a body leaves behind, and what it depends on.
-/

namespace KLang

/-! ## Names -/

/-- The names in the body are the same, and so are the global names. -/
def SameNames (s s' : State) : Prop :=
  s'.locals.map Table.names = s.locals.map Table.names ∧ s'.globals.names = s.globals.names

/-- Both states are at the top level, or both are in a body and have the same global names. -/
def SamePlace (s s' : State) : Prop :=
  s'.locals.isSome = s.locals.isSome ∧ (s.locals.isSome → s'.globals.names = s.globals.names)

theorem SameNames.refl (s : State) : SameNames s s := ⟨rfl, rfl⟩

theorem SameNames.trans (s s' s'' : State) (h : SameNames s s') (h' : SameNames s' s'') :
    SameNames s s'' :=
  ⟨h'.1.trans h.1, h'.2.trans h.2⟩

theorem SameNames.samePlace {s s' : State} (h : SameNames s s') : SamePlace s s' := by
  refine ⟨?_, fun _ => h.2⟩
  rw [← Option.isSome_map (f := Table.names), h.1, Option.isSome_map]

theorem SamePlace.refl (s : State) : SamePlace s s := ⟨rfl, fun _ => rfl⟩

theorem SamePlace.trans (s s' s'' : State) (h : SamePlace s s') (h' : SamePlace s' s'') :
    SamePlace s s'' :=
  ⟨h'.1.trans h.1, fun hs => (h'.2 (h.1.trans hs)).trans (h.2 hs)⟩

theorem State.lookup?_isSome (s : State) (name : String) :
    (s.lookup? name).isSome ↔
      (∃ names, s.locals.map Table.names = some names ∧ name ∈ names) ∨ name ∈ s.globals.names := by
  rw [← Table.get?_isSome s.globals]
  obtain ⟨i, locals, output⟩ := s
  cases locals with
  | none => simp [lookup?]
  | some t =>
    have ht := t.get?_isSome name
    simp only [lookup?, Option.bind_some, Option.map_some, Option.some.injEq, exists_eq_left', ← ht]
    cases t.get? name <;> simp

theorem SameNames.lookup? {s s' : State} (h : SameNames s s') (name : String) :
    (s'.lookup? name).isSome = (s.lookup? name).isSome := by
  rw [Bool.eq_iff_iff, State.lookup?_isSome, State.lookup?_isSome, h.1, h.2]

theorem SameNames.store {s : State} {name : String} (h : (s.lookup? name).isSome) (value : Value) :
    SameNames s (s.store name value) := by
  rw [State.lookup?_isSome] at h
  obtain ⟨i, locals, output⟩ := s
  cases locals with
  | none =>
    have hname : name ∈ i.globals.names := by simpa using h
    exact ⟨rfl, Table.names_insert_of_mem hname value⟩
  | some t =>
    have hname : name ∈ t.names ∨ name ∈ i.globals.names := by simpa using h
    unfold State.store
    by_cases ht : t.contains name = true
    · simp only [ht, if_true]
      exact ⟨congrArg some (Table.names_insert_of_mem ((t.contains_iff name).mp ht) value), rfl⟩
    · simp only [ht]
      have hglobal := hname.resolve_left (mt (t.contains_iff name).mpr ht)
      exact ⟨rfl, Table.names_insert_of_mem hglobal value⟩

theorem SamePlace.declare (s : State) (name : String) (value : Value) :
    SamePlace s (s.declare name value) := by
  obtain ⟨i, locals, output⟩ := s
  cases locals with
  | none => exact ⟨rfl, nofun⟩
  | some t => exact ⟨rfl, fun _ => rfl⟩

theorem SameNames.within {s s' : State} {bindings : Table Value}
    (h : SamePlace (s.inside (some bindings)) s') : SameNames s (s'.inside s.locals) :=
  ⟨rfl, h.2 rfl⟩

/-- Expressions keep all names, and statements of a body keep the global names. -/
theorem names_discipline : Discipline (Reaches SameNames) (Reaches SamePlace) where
  expressions := Sequential.reaches SameNames.refl SameNames.trans
  statements := Sequential.reaches SamePlace.refl SamePlace.trans
  ofExpression h s := (h s).samePlace
  name l name s := by
    rw [Eval.after_evalName]
    exact SameNames.refl s
  step l op name s := by
    obtain heq | ⟨v, hname, heq⟩ := Eval.after_evalStep l op name s <;> rw [heq]
    · exact SameNames.refl s
    · exact SameNames.store hname v
  callee l name s := by
    rw [Eval.after_resolve]
    exact SameNames.refl s
  plot world l script s := by
    obtain ⟨output, heq⟩ := Eval.after_drawPlot world l script s
    rw [heq]
    exact ⟨rfl, rfl⟩
  trace site body h s := by
    rw [Eval.after_tracing]
    exact h s
  body bindings body h s := by
    rw [Eval.after_within]
    exact SameNames.within (h _)
  declare name value s := SamePlace.declare s name value
  assign l target value s := by
    obtain heq | ⟨hname, heq⟩ := Eval.after_assignTo l target value s <;> rw [heq]
    · exact SamePlace.refl s
    · exact (SameNames.store hname value).samePlace
  print line s := ⟨rfl, fun _ => rfl⟩
  define f s := ⟨rfl, fun _ => rfl⟩
  addImport l name s := by
    obtain heq | ⟨library, -, heq⟩ := Eval.after_importModule l name s <;> rw [heq]
    · exact SamePlace.refl s
    · exact ⟨rfl, fun _ => rfl⟩

/-! ## Bodies -/

variable (world : World) (rounds depth : Nat)

end KLang
