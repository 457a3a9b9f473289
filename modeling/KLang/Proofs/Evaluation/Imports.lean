import KLang.Proofs.Builtin.Registry
import KLang.Proofs.Evaluation.Bisimulation

/-!
# The order of imports

Names without a module are searched in the imported modules one after the other. Since the modules
agree on the names that they share, the order of this search has no influence.

* `Interpreter.Registered`: all imported modules are those of the registry.
* `Interpreter.SameImports`: two interpreters differ in the order of their modules at most.
* `reordered_bisimulation`: programs cannot tell them apart.
-/

namespace KLang

theorem findSome?_of_perm {α β : Type} {f : α → Option β} {l l' : List α} (h : l.Perm l')
    (hagree : ∀ a ∈ l, ∀ b ∈ l, ∀ x y, f a = some x → f b = some y → x = y) :
    l'.findSome? f = l.findSome? f := by
  cases hx : l.findSome? f with
  | none =>
    rw [List.findSome?_eq_none_iff] at hx ⊢
    exact fun a ha => hx a (h.mem_iff.mpr ha)
  | some x =>
    obtain ⟨a, ha, hfa⟩ := List.exists_of_findSome?_eq_some hx
    have hsome : (l'.findSome? f).isSome :=
      List.findSome?_isSome_iff.mpr ⟨a, h.mem_iff.mp ha, by rw [hfa]; rfl⟩
    obtain ⟨y, hy⟩ := Option.isSome_iff_exists.mp hsome
    obtain ⟨b, hb, hfb⟩ := List.exists_of_findSome?_eq_some hy
    rw [hy, hagree a ha b (h.mem_iff.mpr hb) x y hfa hfb]

namespace Interpreter

/-- All imported modules are those of the registry. -/
def Registered (i : Interpreter) : Prop :=
  ∀ entry ∈ i.imported.entries, Library.find? entry.1 = some entry.2

/-- The interpreters are the same, but for the order in which modules have been imported. -/
structure SameImports (i i' : Interpreter) : Prop where
  globals : i'.globals = i.globals
  functions : i'.functions = i.functions
  imported : i.imported.entries.Perm i'.imported.entries

variable {i i' : Interpreter}

theorem Registered.get? (h : i.Registered) (name : String) :
    i.imported.get? name = if name ∈ i.imported.names then Library.find? name else none := by
  split
  · rename_i hname
    obtain ⟨library, hlibrary⟩ :=
      Option.isSome_iff_exists.mp ((Table.get?_isSome i.imported name).mpr hname)
    rw [hlibrary, h _ (Table.mem_of_get? hlibrary)]
  · rename_i hname
    exact Option.not_isSome_iff_eq_none.mp (mt (Table.get?_isSome i.imported name).mp hname)

theorem Registered.find?_of_mem (h : i.Registered) {name : String}
    (hname : name ∈ i.imported.names) : ∃ library, Library.find? name = some library := by
  obtain ⟨entry, hentry, rfl⟩ := List.mem_map.mp hname
  exact ⟨entry.2, h entry hentry⟩

theorem Registered.mem_all (h : i.Registered) {library : Library}
    (hlibrary : library ∈ i.imported.values) : library ∈ Library.all := by
  obtain ⟨entry, hentry, rfl⟩ := List.mem_map.mp hlibrary
  exact Library.mem_all_of_find? (h entry hentry)

theorem Registered.insert (h : i.Registered) {name : String} {library : Library}
    (hlibrary : Library.find? name = some library) :
    Registered { i with imported := i.imported.insert name library } := by
  intro entry hentry
  obtain rfl | hentry := Table.mem_insertEntry hentry
  · exact hlibrary
  · exact h entry hentry

namespace SameImports

theorem registered (h : i.SameImports i') (hi : i.Registered) : i'.Registered :=
  fun entry hentry => hi entry (h.imported.mem_iff.mpr hentry)

theorem mem_names (h : i.SameImports i') (name : String) :
    name ∈ i'.imported.names ↔ name ∈ i.imported.names :=
  (h.imported.map Prod.fst).mem_iff.symm

theorem get?_imported (h : i.SameImports i') (hi : i.Registered) (name : String) :
    i'.imported.get? name = i.imported.get? name := by
  rw [hi.get?, (h.registered hi).get?]
  simp only [h.mem_names]

theorem constant? (h : i.SameImports i') (hi : i.Registered) (name : String) :
    i'.constant? name = i.constant? name :=
  findSome?_of_perm (h.imported.map Prod.snd) fun _ ha _ hb _ _ =>
    Library.constants_agree (hi.mem_all ha) (hi.mem_all hb)

theorem builtin? (h : i.SameImports i') (hi : i.Registered) (name : String) :
    i'.builtin? name = i.builtin? name :=
  findSome?_of_perm (h.imported.map Prod.snd) fun _ ha _ hb _ _ =>
    Library.builtins_agree (hi.mem_all ha) (hi.mem_all hb)

end SameImports

end Interpreter

/-! ## States -/

/-- The state with modules of the registry imported in another order. -/
inductive Reordered (s : State) : State → Prop
  | intro (t : Table Library) (h : s.imported.entries.Perm t.entries) (hs : s.Registered) :
      Reordered s { s with imported := t }

theorem Interpreter.Registered.eq_of_mem {i : Interpreter} (hi : i.Registered) {name : String}
    {library : Library} (h : Library.find? name = some library) (library' : Library)
    (hentry : (name, library') ∈ i.imported.entries) : library' = library :=
  Option.some.inj ((hi _ hentry).symm.trans h)

theorem State.addImport_of_mem {s : State} (hs : s.Registered) {name : String}
    (hname : name ∈ s.imported.names) {library : Library}
    (h : Library.find? name = some library) : s.addImport name library = s := by
  have hget : s.imported.get? name = some library := by
    rw [hs.get?, if_pos hname, h]
  rw [addImport, Table.insert_eq_self hget]

theorem Reordered.addImport_swap {s : State} (hs : s.Registered) {name name' : String}
    (hne : name ≠ name') {library library' : Library} (h : Library.find? name = some library)
    (h' : Library.find? name' = some library') :
    Reordered ((s.addImport name library).addImport name' library')
      ((s.addImport name' library').addImport name library) :=
  .intro _ (Table.perm_insert_swap (hs.eq_of_mem h) hne (hs.eq_of_mem h'))
    ((hs.insert h).insert h')

theorem Reordered.sameImports {s s' : State} (h : Reordered s s') :
    s.SameImports s'.toInterpreter := by
  obtain ⟨t, h, -⟩ := h
  exact ⟨rfl, rfl, h⟩

theorem Reordered.registered {s s' : State} (h : Reordered s s') : s.Registered := by
  obtain ⟨-, -, hs⟩ := h
  exact hs

theorem Reordered.output {s s' : State} (h : Reordered s s') : s'.output = s.output := by
  obtain ⟨t, -, -⟩ := h
  rfl

/-- Programs cannot tell the order of imports. -/
theorem reordered_bisimulation : Bisimulation Reordered where
  lookup? h _ := by cases h; rfl
  functions h := by cases h; rfl
  imported h := h.sameImports.get?_imported h.registered
  constant? h := h.sameImports.constant? h.registered
  builtin? h := h.sameImports.builtin? h.registered
  locals h := by cases h; rfl
  inside h _ := by
    obtain ⟨t, h, hs⟩ := h
    exact .intro t h hs
  declare {s s'} h name value := by
    obtain ⟨t, h, hs⟩ := h
    obtain ⟨i, locals, output⟩ := s
    cases locals <;> exact .intro t h hs
  store {s s'} h name value := by
    obtain ⟨t, h, hs⟩ := h
    obtain ⟨i, locals, output⟩ := s
    cases locals with
    | none => exact .intro t h hs
    | some bound =>
      by_cases hname : bound.contains name = true
      · simp only [State.store, hname, if_true]
        exact .intro t h hs
      · simp only [State.store, hname]
        exact .intro t h hs
  define h _ := by
    obtain ⟨t, h, hs⟩ := h
    exact .intro t h hs
  addImport {s s'} h {name library} hlibrary := by
    obtain ⟨t, h, hs⟩ := h
    exact .intro (t.insert name library) (Table.perm_insert (hs.eq_of_mem hlibrary) h)
      (hs.insert hlibrary)
  printLine h _ := by
    obtain ⟨t, h, hs⟩ := h
    exact .intro t h hs
  plot h _ _ _ := by
    obtain ⟨t, h, hs⟩ := h
    exact .intro t h hs

end KLang
