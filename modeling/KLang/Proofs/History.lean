import KLang.Interpreter.Session
import KLang.Proofs.Evaluation.Imports
import KLang.Proofs.Machine.TopLevel
import KLang.Proofs.Parsing.Program

/-!
# What lasts from one program to the next

Programs add to the tables of an interpreter, but they neither remove nor move anything. What each
step changes is one entry of one table, so an invariant of the interpreter has a clause for each of
these changes, and is one of all points of all runs.

* `Interpreter.Sound`: the tables bind no name twice, and a function or module stands under its own
  name.
* `Interpreter.Extends`: all names are where they were.
* `Interpreter.History`: texts have been run in an interpreter, one after the other.
* `Interpreter.tables_only_grow`: what holds at every point of every run after any history.
-/

namespace KLang

namespace Interpreter

/-! ## The invariant -/

/-- The tables bind no name twice. A function stands under its own name, and a module is the one
that the registry has under this name. -/
structure Sound (i : Interpreter) : Prop where
  globals : i.globals.names.Nodup
  functions : i.functions.names.Nodup
  imported : i.imported.names.Nodup
  named : ∀ entry ∈ i.functions.entries, entry.2.name = entry.1
  registered : i.Registered

/-- The second interpreter has all names of the first one where they were, and all modules. -/
structure Extends (i i' : Interpreter) : Prop where
  globals : i.globals.names <+: i'.globals.names
  functions : i.functions.names <+: i'.functions.names
  imported : i.imported.entries <+: i'.imported.entries

theorem sound_empty : Sound ∅ :=
  ⟨.nil, .nil, .nil, fun _ h => absurd h List.not_mem_nil, fun _ h => absurd h List.not_mem_nil⟩

theorem Extends.refl (i : Interpreter) : i.Extends i :=
  ⟨List.prefix_rfl, List.prefix_rfl, List.prefix_rfl⟩

variable {i i' i'' : Interpreter}

theorem Extends.trans (h : i.Extends i') (h' : i'.Extends i'') : i.Extends i'' :=
  ⟨h.globals.trans h'.globals, h.functions.trans h'.functions, h.imported.trans h'.imported⟩

theorem Sound.letGlobal (h : i.Sound) (name : String) (v : Value) : (i.letGlobal name v).Sound :=
  { h with globals := Table.nodup_names_insert h.globals name v }

theorem Extends.letGlobal (i : Interpreter) (name : String) (v : Value) :
    i.Extends (i.letGlobal name v) :=
  { Extends.refl i with globals := Table.names_prefix_insert i.globals name v }

theorem Extends.constant? (h : i.Extends i') {name : String} {x : Number}
    (hx : i.constant? name = some x) : i'.constant? name = some x := by
  obtain ⟨more, hmore⟩ := h.imported
  rw [Interpreter.constant?, Table.values] at hx ⊢
  rw [← hmore, List.map_append, List.findSome?_append, hx]
  rfl

end Interpreter

theorem evalName_eq_ok {s : State} (hs : s.Sound) (l : Option Location) (m c : String) (v : Value) :
    (evalName l ⟨some m, c⟩).verdict s = .ok v ↔ m ∈ s.imported.names ∧
      ∃ library x, Library.find? m = some library ∧ library.constants.get? c = some x ∧
        v = .number x := by
  rw [evalName, Eval.verdict_get_bind]
  simp only [hs.registered.get?]
  by_cases hm : m ∈ s.imported.names
  · simp only [hm, if_true, true_and]
    cases Library.find? m with
    | none =>
      refine ⟨fun h => (by cases h), ?_⟩
      rintro ⟨_, _, ⟨⟩, -⟩
    | some library =>
      dsimp only
      cases hx : library.constants.get? c with
      | none =>
        refine ⟨fun h => (by cases h), ?_⟩
        rintro ⟨_, x, ⟨⟩, hx', -⟩
        rw [hx] at hx'
        cases hx'
      | some x =>
        constructor
        · rintro ⟨⟩
          exact ⟨library, x, rfl, hx, rfl⟩
        · rintro ⟨_, x', ⟨⟩, hx', rfl⟩
          rw [hx] at hx'
          obtain rfl := Option.some.inj hx'
          rfl
  · simp only [hm, if_false, false_and, iff_false]
    intro h
    cases h

/-! ## Steps -/

namespace Config

variable {limits : Limits} {world : World} {m m' : Config} {i : Interpreter}

theorem Changes.sound (h : m.Changes i) (hm : m.state.Sound) : i.Sound := by
  cases h with
  | nothing => exact hm
  | store hname v => exact hm.letGlobal _ v
  | declare l name k hv hs => exact hm.letGlobal name _
  | define l f k s =>
    refine { hm with functions := Table.nodup_names_insert hm.functions f.name f, named := ?_ }
    intro entry hentry
    obtain rfl | hentry := Table.mem_insertEntry hentry
    · rfl
    · exact hm.named entry hentry
  | @addImport l name library k s hlibrary =>
    exact { hm with
      imported := Table.nodup_names_insert hm.imported name library
      registered := hm.registered.insert hlibrary }

theorem Changes.extends (h : m.Changes i) (hm : m.state.Sound) : m.state.Extends i := by
  cases h with
  | nothing => exact .refl _
  | store hname v => exact .letGlobal _ _ v
  | declare l name k hv hs => exact .letGlobal _ name _
  | define l f k s =>
    exact { Interpreter.Extends.refl _ with functions := Table.names_prefix_insert _ f.name f }
  | @addImport l name library k s hlibrary =>
    refine { Interpreter.Extends.refl _ with imported := ?_ }
    -- a module that is imported again is the same
    exact Table.entries_prefix_insert (hm.registered.eq_of_mem hlibrary)

theorem sound_of_leads (h : Leads limits world m m') (hm : m.state.Sound) :
    m'.state.Sound ∧ m.state.Extends m'.state.toInterpreter := by
  induction h with
  | refl => exact ⟨hm, .refl _⟩
  | tail _ hstep ih =>
    obtain ⟨hsound, hextends⟩ := ih
    have hchanges := step_changes hstep
    exact ⟨hchanges.sound hsound, hextends.trans (hchanges.extends hsound)⟩

end Config

/-! ## Runs -/

namespace Interpreter

variable {i i' : Interpreter}

theorem Sound.run (h : i.Sound) (limits : Limits) (world : World) (program : Program) :
    (i.run limits world program).interpreter.Sound ∧
      i.Extends (i.run limits world program).interpreter := by
  obtain ⟨m, hleads, hend⟩ := Config.exists_leads_run limits world i program
  rw [hend]
  exact Config.sound_of_leads hleads h

/-- What can be done in an interpreter: a text is run there, whatever comes of it, or a global
variable is bound. -/
inductive Next (i : Interpreter) : Interpreter → Prop
  | text (limits : Limits) (world : World) (output : Output) (source : String)
      (location : Option Location) :
      Next i (Session.eval limits world ⟨i, output⟩ source location).2.interpreter
  | letGlobal (name : String) (v : Value) : Next i (i.letGlobal name v)

/-- What has been done in an interpreter, one after the other. -/
abbrev History : Interpreter → Interpreter → Prop := Relation.ReflTransGen Next

theorem Sound.next (h : i.Sound) (hnext : i.Next i') : i'.Sound ∧ i.Extends i' := by
  cases hnext with
  | text limits world output source location =>
    rw [Session.eval, runText]
    cases Program.ofText source location with
    | error e => exact ⟨h, .refl i⟩
    | ok program => exact h.run limits world program
  | letGlobal name v => exact ⟨h.letGlobal name v, .letGlobal i name v⟩

theorem Sound.history (h : i.Sound) (hhistory : History i i') : i'.Sound ∧ i.Extends i' := by
  induction hhistory with
  | refl => exact ⟨h, .refl i⟩
  | tail _ hnext ih =>
    obtain ⟨hsound, hextends⟩ := ih
    obtain ⟨hsound', hextends'⟩ := hsound.next hnext
    exact ⟨hsound', hextends.trans hextends'⟩

/-- **The tables of an interpreter only grow.** Whatever texts have been run in an interpreter, its
tables bind no name twice; each variable is what its name gets, each function stands under its own
name, and each imported module is the one of the registry. Later on all names are where they were,
and constants are the same, those of a module being the ones that the registry has. The same is true
at each point of each run, with each later point of it. A global variable gets a new name only in
the step that ends a declaration which stands in the program and is executed at the top level. -/
theorem tables_only_grow (hi : History ∅ i) :
    i.Sound ∧ (∀ name v, (name, v) ∈ i.globals.entries → i.globals.get? name = some v) ∧
    (∀ i', History i i' → i.Extends i' ∧
      ∀ name x, i.constant? name = some x → i'.constant? name = some x) ∧
    ∀ (limits : Limits) (world : World) (program : Program) (m : Config),
      Config.Leads limits world (Config.start i program) m →
        m.state.Sound ∧ i.Extends m.state.toInterpreter ∧
        (∀ name v, (name, v) ∈ m.state.globals.entries → m.state.globals.get? name = some v) ∧
        (∀ m', Config.Leads limits world m m' → m.state.Extends m'.state.toInterpreter ∧
          ∀ name x, m.state.constant? name = some x → m'.state.constant? name = some x) ∧
        (∀ l module c v, (evalName l ⟨some module, c⟩).verdict m.state = .ok v ↔
          module ∈ m.state.imported.names ∧ ∃ library x, Library.find? module = some library ∧
            library.constants.get? c = some x ∧ v = .number x) ∧
        ∀ m', m.step limits world = some m' → ∀ name ∈ m'.state.globals.names,
          name ∉ m.state.globals.names → Config.Declares program.statements name m := by
  have hsound := (sound_empty.history hi).1
  refine ⟨hsound, fun name v => Table.get?_of_mem hsound.globals, fun i' hi' => ?_,
    fun limits world program m hm => ?_⟩
  · have hextends := (hsound.history hi').2
    exact ⟨hextends, fun name x => hextends.constant?⟩
  · obtain ⟨hstate, hextends⟩ := Config.sound_of_leads hm hsound
    refine ⟨hstate, hextends, fun name v => Table.get?_of_mem hstate.globals, fun m' hm' => ?_,
      evalName_eq_ok hstate,
      fun m' hstep name hnew hold => ?_⟩
    · have hlater := (Config.sound_of_leads hm' hstate).2
      exact ⟨hlater, fun name x => hlater.constant?⟩
    · exact (Config.declares_of_new hstep (Config.direct_of_leads hm) hnew hold).1

theorem tables_only_grow_declare :
    let world : World := ⟨"", false, fun _ => false⟩
    let i := (Session.eval .standard world ⟨∅, ∅⟩ "import math;" none).2.interpreter
    let program : Program := ⟨none, [.declare none .var "x" (.variable none ⟨some "math", "pi"⟩)]⟩
    History ∅ i ∧ i.imported.names = ["math"] ∧ i.Sound ∧
      ∃ m m', Config.Leads .standard world (Config.start i program) m ∧
        m.step .standard world = some m' ∧ m.state.globals.names = [] ∧
        m'.state.globals.names = ["x"] ∧ Config.Declares program.statements "x" m := by
  intro world i program
  have hi : History ∅ i := .single (.text .standard world ∅ "import math;" none)
  have htext : Program.ofText "import math;" none = .ok ⟨none, [.importModule none "math"]⟩ := by
    have hwords : (Tokens.ofText "import math;" none).words =
        [⟨.keyword .importWord, none⟩, ⟨.identifier "math", none⟩, ⟨.symbol .semicolon, none⟩] := by
      decide +kernel
    refine Program.ofText_eq_ok.mpr ⟨none, by decide +kernel, ?_⟩
    rw [hwords]
    exact ⟨.cons (.importModule none none none "math") .nil, rfl⟩
  have himport : i = ⟨∅, ∅, Table.insert ∅ "math" .math⟩ := by
    change (Session.eval .standard world ⟨∅, ∅⟩ "import math;" none).2.interpreter = _
    rw [Session.eval, runText, htext]
    rfl
  obtain ⟨hsound, -, -, hruns⟩ := tables_only_grow hi
  have hleads : Config.Leads .standard world (Config.start i program)
      ⟨.value (.number .pi), [.declare none .var "x", .behind []], i.start⟩ := by
    rw [himport]
    exact .head rfl (.head rfl (.head rfl .refl))
  have hnew (name : String) := (hruns .standard world program _ hleads).2.2.2.2.2 _ rfl name
  refine ⟨hi, by rw [himport]; rfl, hsound, _, _, hleads, rfl, ?_, ?_, ?_⟩
  · rw [himport]
    rfl
  · rw [himport]
    rfl
  · refine hnew "x" ?_ ?_ <;> rw [himport] <;> decide

end Interpreter

end KLang
