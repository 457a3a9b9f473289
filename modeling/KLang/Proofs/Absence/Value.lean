import KLang.Proofs.Builtin.Dispatch
import KLang.Proofs.Call

/-!
# Where the absent value comes from

Bodies that return nothing give the absent value, and so do functions that draw plots. Declarations,
parameters and functions convert what they are given to their kind, which does not hold the absent
value, and operators give numbers and strings. So where no variable holds it, no expression has it as
its value but the call of a function that draws.

* `Expr.CallsPlot`, `Expr.CallsVoid`: these calls, by their name and by what they are resolved to.
* `State.Filled`: no variable in sight holds the absent value.
* `evalExpr_eq_nil`: the expressions whose value is absent.
* `evalStep_fault`: postfix operators are not refused for the absent value.
-/

namespace KLang

/-! ## Functions without a result -/

/-- The functions that draw plots. -/
def plotNames : List String :=
  ["plot_function", "plot_multiple_functions", "plot_2vars_function", "plot_csv"]

theorem Library.mem_plotNames {library : Library} (h : library ∈ all) {name : String} {b : Builtin}
    (hb : library.builtins.get? name = some b) :
    b.signature.result = .void ↔ name ∈ plotNames := by
  have hall : ∀ library ∈ all, ∀ entry ∈ library.builtins.entries,
      entry.2.signature.result = .void ↔ entry.1 ∈ plotNames := by decide +kernel
  exact hall library h (name, b) (Table.mem_of_get? hb)

theorem builtin_of_resolve {s : State} (hs : s.Registered) {l : Option Location} {name : Name}
    {b : Builtin} (h : (resolve l name).verdict s = .ok (.builtin b)) :
    ∃ library ∈ Library.all, library.builtins.get? name.base = some b := by
  rw [resolve, Eval.verdict_get_bind] at h
  split at h
  case h_1 m _ =>
    split at h
    case h_1 => cases h
    case h_2 library hlibrary =>
      split at h
      case h_1 => cases h
      case h_2 b' hb =>
        cases h
        exact ⟨library, Library.mem_all_of_find? (hs _ (Table.mem_of_get? hlibrary)), hb⟩
  case h_2 =>
    split at h
    case h_1 => cases h
    case h_2 =>
      split at h
      case h_1 => cases h
      case h_2 b' hb =>
        cases h
        obtain ⟨library, hlibrary, hb⟩ := List.exists_of_findSome?_eq_some hb
        exact ⟨library, hs.mem_all hlibrary, hb⟩

namespace Expr

/-- A call of a function with the name of one that draws. -/
def CallsPlot (e : Expr) : Prop := ∃ l name es, e = .call l name es ∧ name.base ∈ plotNames

/-- A call that is resolved to a builtin function without a result. -/
def CallsVoid (s : State) (e : Expr) : Prop :=
  ∃ l name es b, e = .call l name es ∧ (resolve l name).verdict s = .ok (.builtin b) ∧
    b.signature.result = .void

theorem CallsVoid.callsPlot {s : State} {e : Expr} (h : e.CallsVoid s) (hs : s.Registered) :
    e.CallsPlot := by
  obtain ⟨l, name, es, b, rfl, hresolve, hvoid⟩ := h
  obtain ⟨library, hlibrary, hb⟩ := builtin_of_resolve hs hresolve
  exact ⟨l, name, es, rfl, (Library.mem_plotNames hlibrary hb).mp hvoid⟩

end Expr

/-! ## Variables -/

/-- No variable of the table holds the absent value. -/
def Table.Filled (t : Table Value) : Prop := ∀ entry ∈ t.entries, entry.2 ≠ .nil

namespace Table.Filled

variable {t : Table Value} {name : String} {v : Value}

theorem empty : Filled ∅ := fun _ h => absurd h List.not_mem_nil

theorem insert (h : t.Filled) (name : String) (hv : v ≠ .nil) : (t.insert name v).Filled := by
  intro entry hentry
  obtain rfl | hentry := Table.mem_insertEntry hentry
  · exact hv
  · exact h entry hentry

theorem get? (h : t.Filled) (hv : t.get? name = some v) : v ≠ .nil := h _ (Table.mem_of_get? hv)

end Table.Filled

/-- No variable in sight holds the absent value. -/
structure State.Filled (s : State) : Prop where
  globals : s.globals.Filled
  locals : ∀ t ∈ s.locals, t.Filled

namespace State.Filled

variable {s : State} {name : String} {v : Value}

theorem lookup? (h : s.Filled) (hv : s.lookup? name = some v) : v ≠ .nil := by
  unfold State.lookup? at hv
  split at hv
  case h_1 w hw =>
    obtain rfl := Option.some.inj hv
    obtain ⟨t, ht, hw⟩ := Option.bind_eq_some_iff.mp hw
    exact (h.locals t ht).get? hw
  case h_2 => exact h.globals.get? hv

theorem declare (h : s.Filled) (name : String) (hv : v ≠ .nil) : (s.declare name v).Filled := by
  unfold State.declare
  split
  case h_1 t ht =>
    refine ⟨h.globals, fun t' ht' => ?_⟩
    obtain rfl := Option.some.inj ht'
    exact (h.locals t ht).insert name hv
  case h_2 => exact ⟨h.globals.insert name hv, h.locals⟩

theorem store (h : s.Filled) (name : String) (hv : v ≠ .nil) : (s.store name v).Filled := by
  unfold State.store
  split
  case h_1 t ht =>
    split
    · refine ⟨h.globals, fun t' ht' => ?_⟩
      obtain rfl := Option.some.inj ht'
      exact (h.locals t ht).insert name hv
    · exact ⟨h.globals.insert name hv, h.locals⟩
  case h_2 => exact ⟨h.globals.insert name hv, h.locals⟩

theorem inside (h : s.Filled) {locals : Option (Table Value)} (hlocals : ∀ t ∈ locals, t.Filled) :
    (s.inside locals).Filled :=
  ⟨h.globals, hlocals⟩

theorem evalStep (h : s.Filled) (l : Option Location) (op : PostfixOperator) (name : String) :
    ((evalStep l op name).after s).Filled := by
  rw [KLang.evalStep, Eval.after_get_bind]
  split
  · exact h
  · exact h.store name (by simp)
  · exact h

theorem assignTo (h : s.Filled) (l : Option Location) (target : Name) (hv : v ≠ .nil) :
    ((assignTo l target v).after s).Filled := by
  obtain heq | ⟨-, heq⟩ := Eval.after_assignTo l target v s <;> rw [heq]
  · exact h
  · exact h.store _ hv

theorem importModule (h : s.Filled) (l : Option Location) (name : String) :
    ((importModule l name).after s).Filled := by
  obtain heq | ⟨library, -, heq⟩ := Eval.after_importModule l name s <;> rw [heq]
  · exact h
  · exact ⟨h.globals, h.locals⟩

theorem callBuiltin (h : s.Filled) (world : World) (l : Option Location) (b : Builtin)
    (vs : List Value) : ((callBuiltin world l b vs).after s).Filled := by
  have hkeeps : Sequential (Reaches fun s s' : State => s.Filled → s'.Filled) :=
    .reaches (fun _ h => h) fun _ _ _ h h' hs => h' (h hs)
  refine hkeeps.callBuiltin (fun script s hs => ?_) b vs s h
  obtain ⟨output, heq⟩ := Eval.after_drawPlot world l script s
  rw [heq]
  exact ⟨hs.globals, hs.locals⟩

theorem ofExcept (h : s.Filled) {α : Type} (l : Option Location) (r : Except Fault α) :
    ((Eval.ofExcept l r).after s).Filled := by
  cases r <;> exact h

end State.Filled

/-! ## Values -/

theorem UnaryOperator.apply_ne_nil {op : UnaryOperator} {v w : Value} (h : op.apply v = .ok w) :
    w ≠ .nil := by
  cases op <;> cases v <;> cases h <;> nofun

theorem BinaryOperator.apply_ne_nil {op : BinaryOperator} {a b w : Value}
    (h : op.apply a b = .ok w) : w ≠ .nil := by
  unfold apply at h
  dsimp only at h
  split at h
  case h_1 s t =>
    split at h
    case h_1 v hv =>
      obtain rfl := Except.ok.inj h
      unfold onStrings? at hv
      split at hv <;> cases hv <;> nofun
    case h_2 => cases h
  case h_2 =>
    split at h
    case h_1 x y _ _ =>
      cases hz : op.onNumbers x y <;> rw [hz] at h <;> cases h
      nofun
    case h_2 => cases h

theorem evalName_ne_nil {s : State} (hs : s.Filled) {l : Option Location} {name : Name} {v : Value}
    (h : (evalName l name).verdict s = .ok v) : v ≠ .nil := by
  rw [evalName, Eval.verdict_get_bind] at h
  split at h
  case h_1 m _ =>
    split at h
    case h_1 => cases h
    case h_2 =>
      split at h <;> cases h
      simp
  case h_2 =>
    split at h
    case h_1 w hw =>
      cases h
      exact hs.lookup? hw
    case h_2 =>
      cases h
      simp

theorem evalStep_ne_nil {s : State} {l : Option Location} {op : PostfixOperator} {name : String}
    {v : Value} (h : (evalStep l op name).verdict s = .ok v) : v ≠ .nil := by
  rw [evalStep, Eval.verdict_get_bind] at h
  split at h <;> cases h
  simp

/-- A postfix operator does not meet the absent value. -/
theorem evalStep_fault {s : State} (hs : s.Filled) {l : Option Location} {op : PostfixOperator}
    {name : String} {e : RuntimeError} (h : (evalStep l op name).verdict s = .error (.error e)) :
    ∀ name', e.fault ≠ .postfixOperand name' .nil := by
  rw [evalStep, Eval.verdict_get_bind] at h
  split at h
  case h_1 =>
    cases h
    intro name' heq
    unfold State.unassignable at heq
    dsimp only at heq
    split at heq <;> cases heq
  case h_2 => cases h
  case h_3 v _ hv =>
    cases h
    intro name' heq
    have htype := (Fault.postfixOperand.inj heq).2
    cases v with
    | nil => exact hs.lookup? hv rfl
    | number | string => cases htype

theorem callBuiltin_eq_nil {s : State} {world : World} {l : Option Location} {b : Builtin}
    {vs : List Value} {v : Value} (h : (callBuiltin world l b vs).verdict s = .ok v) :
    v = .nil ↔ b.signature.result = .void := by
  have hanswers : (callBuiltin world l b vs).Answers l b.signature.result :=
    answers_callBuiltin world l b.invoke
  obtain ⟨w, hw, hgives⟩ | ⟨f, hf⟩ := hanswers s
  · obtain rfl := Except.ok.inj (h.symm.trans hw)
    revert hgives
    cases b.signature.result <;> cases v <;> simp [DataKind.Gives]
  · cases h.symm.trans hf

/-- The value of an expression is absent only for the call of a builtin function without a result. -/
theorem evalExpr_eq_nil {world : World} {enter : Enter} {e : Expr} {s : State} (hs : s.Filled)
    {v : Value} (h : (evalExpr world enter e).verdict s = .ok v) : v = .nil ↔ e.CallsVoid s := by
  have hother (hv : v ≠ .nil) (he : ∀ l name es, e ≠ .call l name es) : v = .nil ↔ e.CallsVoid s :=
    iff_of_false hv fun ⟨l, name, es, _, heq, _⟩ => he l name es heq
  match e with
  | .number l x | .string l text =>
    obtain rfl := Except.ok.inj h
    exact hother nofun nofun
  | .variable l name => exact hother (evalName_ne_nil hs h) nofun
  | .step l op name => exact hother (evalStep_ne_nil h) nofun
  | .unary l op e =>
    obtain ⟨a, -, hv⟩ := Eval.verdict_bind_eq_ok h
    exact hother (UnaryOperator.apply_ne_nil (Eval.verdict_ofExcept.mp hv)) nofun
  | .binary l op left right =>
    obtain ⟨a, -, h⟩ := Eval.verdict_bind_eq_ok h
    obtain ⟨b, -, hv⟩ := Eval.verdict_bind_eq_ok h
    exact hother (BinaryOperator.apply_ne_nil (Eval.verdict_ofExcept.mp hv)) nofun
  | .call l name es =>
    have hresolved {callee : Callee} (hcallee : (resolve l name).verdict s = .ok callee) :
        (Expr.call l name es).CallsVoid s ↔
          ∃ b, callee = .builtin b ∧ b.signature.result = .void := by
      constructor
      · rintro ⟨_, _, _, b, ⟨⟩, hb, hvoid⟩
        exact ⟨b, Except.ok.inj (hcallee.symm.trans hb), hvoid⟩
      · rintro ⟨b, rfl, hvoid⟩
        exact ⟨l, name, es, b, rfl, hcallee, hvoid⟩
    rw [evalExpr] at h
    obtain ⟨callee, hcallee, h⟩ := Eval.verdict_bind_eq_ok h
    rw [hresolved hcallee]
    cases callee with
    | builtin b =>
      obtain ⟨vs, -, h⟩ := Eval.verdict_bind_eq_ok h
      rw [callBuiltin_eq_nil h]
      simp
    | function f =>
      dsimp only at h
      split at h
      · cases h
      · obtain ⟨bindings, -, h⟩ := Eval.verdict_bind_eq_ok h
        obtain ⟨flow, -, h⟩ := Eval.verdict_bind_eq_ok h
        exact iff_of_false (Value.holds_of_coerce (Eval.verdict_ofExcept.mp h)).ne_nil (by simp)

end KLang
