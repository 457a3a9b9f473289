import KLang.Builtin.Trig
import KLang.Proofs.Table

/-!
# The modules that programs can import

A name may be defined by more than one module only where it does not matter which of them is asked.

* `Library.constants_agree`: a constant is the same in all modules that define it.
* `Library.builtins_agree`: a function is defined by one module only.
-/

namespace KLang.Library

theorem mem_all_of_find? {name : String} {library : Library} (h : find? name = some library) :
    library ∈ all :=
  List.mem_of_find?_eq_some h

theorem eq_math_or_trig {library : Library} (h : library ∈ all) :
    library = math ∨ library = trig := by
  simpa [all] using h

theorem name_of_find? {name : String} {library : Library} (h : find? name = some library) :
    name = "math" ∨ name = "trig" := by
  have hname : library.name = name := by simpa using List.find?_some h
  obtain rfl | rfl := eq_math_or_trig (mem_all_of_find? h)
  · exact .inl hname.symm
  · exact .inr hname.symm

theorem constants_trig {name : String} {x : Number} (h : trig.constants.get? name = some x) :
    math.constants.get? name = some x := by
  have hentry : (name, x) ∈ [("pi", Number.pi)] := Table.mem_of_get? h
  obtain ⟨rfl, rfl⟩ := Prod.mk.inj (List.mem_singleton.mp hentry)
  rfl

theorem builtins_disjoint : ∀ name ∈ math.builtins.names, name ∉ trig.builtins.names := by
  decide +kernel

variable {a b : Library} {name : String}

/-- A constant is the same in all modules that define it. -/
theorem constants_agree (ha : a ∈ all) (hb : b ∈ all) {x y : Number}
    (hx : a.constants.get? name = some x) (hy : b.constants.get? name = some y) : x = y := by
  have hmath {library : Library} (h : library ∈ all) {z : Number}
      (hz : library.constants.get? name = some z) : math.constants.get? name = some z := by
    obtain rfl | rfl := eq_math_or_trig h
    · exact hz
    · exact constants_trig hz
  exact Option.some.inj ((hmath ha hx).symm.trans (hmath hb hy))

/-- A function is defined by one module only. -/
theorem builtins_agree (ha : a ∈ all) (hb : b ∈ all) {x y : Builtin}
    (hx : a.builtins.get? name = some x) (hy : b.builtins.get? name = some y) : x = y := by
  have hnames {library : Library} {z : Builtin} (h : library.builtins.get? name = some z) :
      name ∈ library.builtins.names :=
    (Table.get?_isSome _ name).mp (by rw [h]; rfl)
  obtain rfl | rfl := eq_math_or_trig ha <;> obtain rfl | rfl := eq_math_or_trig hb
  · exact Option.some.inj (hx.symm.trans hy)
  · exact (builtins_disjoint name (hnames hx) (hnames hy)).elim
  · exact (builtins_disjoint name (hnames hy) (hnames hx)).elim
  · exact Option.some.inj (hx.symm.trans hy)

end KLang.Library
