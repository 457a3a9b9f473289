import KLang.Proofs.Evaluation.Bisimulation

/-!
# Output is only added to

What has been written before an evaluation stays in front of what the evaluation writes, and has no
influence on it.

* `State.behind`: a state with more output in front, and `written_bisimulation`: programs cannot tell
  it apart.
* `written_discipline`: every evaluation from there does the same, behind that output.
-/

namespace KLang

namespace Output

theorem append_def (o o' : Output) :
    o ++ o' = ⟨o.stdout ++ o'.stdout, o.stderr ++ o'.stderr, o.plots ++ o'.plots⟩ := rfl

@[simp] theorem append_empty (o : Output) : o ++ ∅ = o := by
  change Output.mk (o.stdout ++ "") (o.stderr ++ "") (o.plots ++ []) = o
  simp

theorem append_assoc (o o' o'' : Output) : o ++ o' ++ o'' = o ++ (o' ++ o'') := by
  simp [append_def, String.append_assoc]

theorem append_plot (o o' : Output) (canPlot : Bool) (command script : List String) :
    (o ++ o').plot canPlot command script = o ++ o'.plot canPlot command script := by
  cases canPlot <;> simp [plot, append_def, String.append_assoc]

end Output

/-- The state with more output in front. -/
def State.behind (o : Output) (s : State) : State := { s with output := o ++ s.output }

/-- The second state is the first one with more output in front. -/
def Written (o : Output) (s s' : State) : Prop := s' = s.behind o

namespace State

variable (o : Output) (s : State)

theorem printLine_behind (line : String) :
    (s.behind o).printLine line = (s.printLine line).behind o := by
  simp [printLine, behind, Output.append_def, String.append_assoc]

theorem declare_behind (name : String) (value : Value) :
    (s.behind o).declare name value = (s.declare name value).behind o := by
  obtain ⟨i, locals, output⟩ := s
  cases locals <;> rfl

theorem store_behind (name : String) (value : Value) :
    (s.behind o).store name value = (s.store name value).behind o := by
  obtain ⟨i, locals, output⟩ := s
  cases locals with
  | none => rfl
  | some t =>
    by_cases h : t.contains name <;> simp [store, behind, h]

end State

theorem written_bisimulation (o : Output) : Bisimulation (Written o) where
  lookup? h _ := by cases h; rfl
  functions h := by cases h; rfl
  imported h _ := by cases h; rfl
  constant? h _ := by cases h; rfl
  builtin? h _ := by cases h; rfl
  locals h := by cases h; rfl
  inside h _ := by cases h; rfl
  declare h name value := by cases h; exact State.declare_behind o _ name value
  store h name value := by cases h; exact State.store_behind o _ name value
  define h _ := by cases h; rfl
  addImport h _ _ _ := by cases h; rfl
  printLine h line := by cases h; exact State.printLine_behind o _ line
  plot h canPlot command script := by
    cases h
    simp [Written, State.behind, Output.append_plot]

/-- What has been written before has no influence on an evaluation, and stays in front of what the
evaluation writes. -/
theorem written_discipline (o : Output) :
    Discipline (Respects (Written o)) (Respects (Written o)) :=
  (written_bisimulation o).discipline

end KLang
