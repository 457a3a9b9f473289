import KLang.Proofs.History
import KLang.Proofs.Machine.Calls

/-!
# Functions that come from texts

* `Function.Parsed`: the functions that stand in a text that is a program.
* `Function.Parsed.nodup_names`: their parameters have different names.
* `Interpreter.parsed_of_history`: whatever texts have been run, all functions of an interpreter
  have been parsed, also while a program runs.
-/

namespace KLang

variable {ts : List Token} {b : List Statement} {t : Statement}

/-! ## Statements within statements -/

theorem IsStatements.of_mem (h : IsStatements ts b) (ht : t ∈ b) : ∃ u, IsStatement u t := by
  induction b generalizing ts with
  | nil => cases ht
  | cons s ss ih =>
    cases h with
    | cons hs more =>
      obtain rfl | ht := List.mem_cons.mp ht
      · exact ⟨_, hs⟩
      · exact ih more ht

theorem IsBlock.isStatements {block : Block} (h : IsBlock ts block) :
    ∃ u, IsStatements u block.statements := by
  cases h with
  | mk l r h => exact ⟨_, h⟩

theorem IsArm.isBlock {l : Option Location} {arm : Arm} (h : IsArm l ts arm) :
    ∃ u, IsBlock u arm.body := by
  cases h with
  | mk l hcondition hbody => exact ⟨_, hbody⟩

theorem IsArms.isBlock {arms : List Arm} {arm : Arm} (h : IsArms ts arms) (harm : arm ∈ arms) :
    ∃ u, IsBlock u arm.body := by
  induction arms generalizing ts with
  | nil => cases harm
  | cons first arms ih =>
    cases h with
    | cons l hfirst more =>
      obtain rfl | harm := List.mem_cons.mp harm
      · exact hfirst.isBlock
      · exact ih more harm

theorem IsStatements.of_hasStatement (h : IsStatements ts b) (ht : HasStatement b t) :
    ∃ u, IsStatement u t := by
  induction ht with
  | here ht => exact h.of_mem ht
  | arm _ harm ht ih =>
    obtain ⟨u, hbranch⟩ := ih
    cases hbranch with
    | branch l hfirst harms _ =>
      obtain ⟨_, hblock⟩ := (IsArms.cons _ hfirst harms).isBlock harm
      obtain ⟨_, hstatements⟩ := hblock.isStatements
      exact hstatements.of_mem ht
  | otherwise _ ht ih =>
    obtain ⟨u, hbranch⟩ := ih
    cases hbranch with
    | branch l _ _ helse =>
      cases helse with
      | given l hblock =>
        obtain ⟨_, hstatements⟩ := hblock.isStatements
        exact hstatements.of_mem ht
  | loop _ ht ih =>
    obtain ⟨u, hloop⟩ := ih
    cases hloop with
    | loop l _ hbody =>
      obtain ⟨_, hstatements⟩ := hbody.isStatements
      exact hstatements.of_mem ht

/-! ## Functions -/

/-- The function stands in a text that is a program, perhaps in the body of another one. -/
inductive Function.Parsed : Function → Prop
  | program {source : String} {start l : Option Location} {program : Program} {f : Function}
      (h : Program.ofText source start = .ok program)
      (hf : HasStatement program.statements (.define l f)) : Parsed f
  | body {f f' : Function} {l : Option Location} (h : Parsed f)
      (hf : HasStatement f.body.statements (.define l f')) : Parsed f'

namespace Function

theorem of_isStatement {l : Option Location} {f : Function} (h : IsStatement ts (.define l f)) :
    (f.parameters.map Parameter.name).Nodup ∧ ∃ u, IsStatements u f.body.statements := by
  cases h with
  | define l hheader hbody =>
    cases hheader with
    | mk l l' r name hkind hparameters => exact ⟨hparameters.2, hbody.isStatements⟩

theorem Parsed.declared {f : Function} (h : f.Parsed) : ∃ l u, IsStatement u (.define l f) := by
  induction h with
  | program h hf =>
    obtain ⟨eof, -, hprogram, -⟩ := Program.ofText_eq_ok.mp h
    exact ⟨_, hprogram.of_hasStatement hf⟩
  | body _ hf ih =>
    obtain ⟨l, u, hdeclared⟩ := ih
    obtain ⟨-, v, hbody⟩ := of_isStatement hdeclared
    exact ⟨_, hbody.of_hasStatement hf⟩

/-- The parameters of a function have different names. -/
theorem Parsed.nodup_names {f : Function} (h : f.Parsed) :
    (f.parameters.map Parameter.name).Nodup := by
  obtain ⟨l, u, hdeclared⟩ := h.declared
  exact (of_isStatement hdeclared).1

end Function

namespace Interpreter

variable {i i' : Interpreter} {limits : Limits} {world : World}

theorem parsed_of_leads {source : String} {start : Option Location} {program : Program} {m : Config}
    (hi : Config.Declared Function.Parsed i.start) (h : Program.ofText source start = .ok program)
    (hleads : Config.Leads limits world (Config.start i program) m) :
    Config.Declared Function.Parsed m.state ∧ Config.Calls (fun _ f _ => f.Parsed) m :=
  Config.known_of_leads hi (fun _ _ => .program h) (fun _ hf _ _ => .body hf) hleads

/-- Whatever has been done in an interpreter, its functions have been parsed. -/
theorem parsed_of_history (h : History ∅ i) : Config.Declared Function.Parsed i.start := by
  induction h with
  | refl => nofun
  | @tail i i' _ hnext ih =>
    cases hnext with
    | letGlobal name v => exact ih
    | text limits world output source location =>
      rw [Session.eval]
      cases hprogram : Program.ofText source location with
      | error e =>
        rw [runText, hprogram]
        exact ih
      | ok program =>
        rw [runText, hprogram]
        obtain ⟨m, hleads, hend⟩ := Config.exists_leads_run limits world i program
        change Config.Declared Function.Parsed (i.run limits world program).interpreter.start
        rw [hend]
        exact (parsed_of_leads ih hprogram hleads).1

end Interpreter

end KLang
