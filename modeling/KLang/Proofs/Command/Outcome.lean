import KLang.CommandLine
import KLang.Proofs.Machine.Printing
import KLang.Proofs.Machine.Trace
import KLang.Proofs.Text.Encoding

/-!
# How the command ends

The command ends well exactly if it is given one file, this is the text of a program, and the program
comes to its end or returns. Before all of the text has been read as a program, nothing is executed.

* `Loads`, `LoadsProgram`: the tokens and the program that the arguments lead to.
* `Exit.Refuses`: the end of a command that has executed nothing.
* `runCommand_of_program`, `runCommand_of_no_program`: the exit with a program, and without.
* `runCommand_outcome`: the result.
-/

namespace KLang

/-! ## What the arguments lead to -/

/-- The arguments name one file that can be read, and its bytes encode a text that is split into the
tokens when its line ends are made uniform. -/
inductive Loads (read : String → Except FileFault (List UInt8)) : List String → Tokens → Prop
  | mk {path : String} {bytes : List UInt8} {cs : List Char} (hread : read path = .ok bytes)
      (hbytes : cs.flatMap String.utf8EncodeChar = bytes) :
      Loads read [path] (Tokens.ofChars (some ⟨some path, 1⟩) (unifyNewlines cs))

/-- The arguments lead to tokens that form the program up to the end of the text. -/
def LoadsProgram (read : String → Except FileFault (List UInt8)) (arguments : List String)
    (ts : Tokens) (program : Program) : Prop :=
  Loads read arguments ts ∧
    ∃ eof, ts.ending = .complete eof ∧ IsProgram eof ts.words program

/-- An exit with status `1` that neither prints nor plots. -/
structure Exit.Refuses (exit : Exit) : Prop where
  status : exit.status = 1
  stdout : exit.output.stdout = ""
  plots : exit.output.plots = []

variable {limits : Limits} {settings : Settings} {world : World}
  {read : String → Except FileFault (List UInt8)} {arguments : List String} {ts : Tokens}
  {program : Program}

theorem Loads.unique {ts' : Tokens} (h : Loads read arguments ts) (h' : Loads read arguments ts') :
    ts' = ts := by
  obtain ⟨hread, hbytes⟩ := h
  obtain ⟨hread', hbytes'⟩ := h'
  rw [hread] at hread'
  cases hread'
  rw [← decodeUtf8_eq_ok] at hbytes hbytes'
  cases hbytes.symm.trans hbytes'
  rfl

theorem LoadsProgram.unique {ts' : Tokens} {program' : Program}
    (h : LoadsProgram read arguments ts program) (h' : LoadsProgram read arguments ts' program') :
    ts' = ts ∧ program' = program := by
  obtain rfl := h.1.unique h'.1
  have hread := Program.ofTokens_eq_ok.mpr h.2
  rw [Program.ofTokens_eq_ok.mpr h'.2] at hread
  exact ⟨rfl, Except.ok.inj hread⟩

theorem runCommand_of_loads (h : Loads read arguments ts) :
    runCommand limits settings world read arguments = listAndRun limits settings world ts := by
  obtain ⟨hread, hbytes⟩ := h
  rw [runCommand, hread, runFile.eq_def]
  simp only [decodeUtf8_eq_ok.mpr hbytes]

/-! ## Refusals -/

theorem Exit.Refuses.reported (report : String) : (Exit.reported ∅ report).Refuses :=
  ⟨rfl, rfl, rfl⟩

theorem Exit.Refuses.afterError {exit : Exit} (h : exit.Refuses) (text : String) :
    (exit.afterError text).Refuses :=
  ⟨h.status, h.stdout, h.plots⟩

theorem SyntaxError.refuses_exit (e : SyntaxError) : (e.exit ∅).Refuses := by
  unfold SyntaxError.exit
  repeat' split
  all_goals exact ⟨rfl, rfl, rfl⟩

theorem runCommand_of_not_loads (h : ∀ ts, ¬ Loads read arguments ts) :
    ∃ exit : Exit, exit.Refuses ∧
      ∀ limits settings world, runCommand limits settings world read arguments = exit := by
  match arguments with
  | [] | _ :: _ :: _ => exact ⟨_, .reported _, fun _ _ _ => rfl⟩
  | [path] =>
    cases hread : read path with
    | error f =>
      cases f <;> exact ⟨_, ⟨rfl, rfl, rfl⟩, fun _ _ _ => by rw [runCommand, hread]; rfl⟩
    | ok bytes =>
      cases hbytes : decodeUtf8 bytes with
      | ok cs => exact (h _ (.mk hread (decodeUtf8_eq_ok.mp hbytes))).elim
      | error f =>
        refine ⟨.reported ∅ (reportLine none ("cannot decode " ++ quoted path ++ ": " ++ f.message)),
          .reported _, fun _ _ _ => ?_⟩
        rw [runCommand, hread, runFile.eq_def]
        simp only [hbytes]

theorem runTokens_refuses (h : ∀ program, Program.ofTokens ts ≠ .ok program) :
    (runTokens limits settings world ts).Refuses := by
  rw [runTokens]
  cases hread : Program.ofTokens ts with
  | error e => exact e.refuses_exit
  | ok program => exact (h program hread).elim

theorem listAndRun_refuses (h : ∀ program, Program.ofTokens ts ≠ .ok program) :
    (listAndRun limits settings world ts).Refuses := by
  unfold listAndRun
  repeat' split
  · exact (SyntaxError.refuses_exit _).afterError _
  · exact (runTokens_refuses h).afterError _
  · exact runTokens_refuses h

/-- Without a program, the command is refused. -/
theorem runCommand_of_no_program (h : ∀ ts program, ¬ LoadsProgram read arguments ts program) :
    (runCommand limits settings world read arguments).Refuses := by
  by_cases hloads : ∃ ts, Loads read arguments ts
  · obtain ⟨ts, hts⟩ := hloads
    rw [runCommand_of_loads hts]
    exact listAndRun_refuses fun program hread =>
      h ts program ⟨hts, Program.ofTokens_eq_ok.mp hread⟩
  · obtain ⟨exit, hexit, heq⟩ := runCommand_of_not_loads fun ts hts => hloads ⟨ts, hts⟩
    rw [heq]
    exact hexit

/-! ## Programs -/

/-- The listing of the tokens if it is wanted. -/
def listingIf (settings : Settings) (ts : Tokens) : String :=
  if enabled settings.tokens then ts.listing else ""

theorem Exit.afterError_empty (exit : Exit) : exit.afterError "" = exit := by
  simp [afterError]

theorem runCommand_of_complete {eof : Option Location} (h : Loads read arguments ts)
    (hending : ts.ending = .complete eof) :
    runCommand limits settings world read arguments =
      (runTokens limits settings world ts).afterError (listingIf settings ts) := by
  rw [runCommand_of_loads h, listAndRun, hending, listingIf]
  split
  · rfl
  · rw [Exit.afterError_empty]

/-- With a program, the command runs it. -/
theorem runCommand_of_program (h : LoadsProgram read arguments ts program) :
    runCommand limits settings world read arguments =
      ((Interpreter.run limits world ∅ program).exit settings).afterError
        (listingIf settings ts) := by
  obtain ⟨hloads, eof, hending, hprogram⟩ := h
  rw [runCommand_of_complete hloads hending, runTokens,
    Program.ofTokens_eq_ok.mpr ⟨eof, hending, hprogram⟩]

namespace Run

/-- The program has come to its end, or has returned at the top level. -/
def Ends (run : Run) : Prop := run.result = .done ∨ ∃ v, run.result = .returned v

variable {run : Run}

theorem exit_of_ends (h : run.Ends) :
    run.exit settings =
      ⟨0, if enabled settings.dump then run.output.addError run.interpreter.dump else run.output,
        none, none⟩ := by
  unfold exit
  obtain h | ⟨v, h⟩ := h <;> rw [h] <;> dsimp only <;> split <;> rfl

theorem output_exit : (run.exit settings).output.stdout = run.output.stdout ∧
    (run.exit settings).output.plots = run.output.plots := by
  unfold exit
  repeat' split
  all_goals exact ⟨rfl, rfl⟩

theorem status_of_not_ends (h : ¬ run.Ends) : (run.exit settings).status = 1 := by
  unfold exit
  split
  · rfl
  · rfl
  · rfl
  · rename_i hdone
    exact (h (.inl hdone)).elim
  · rename_i v hreturned
    exact (h (.inr ⟨v, hreturned⟩)).elim

theorem status_eq_zero : (run.exit settings).status = 0 ↔ run.Ends := by
  by_cases h : run.Ends
  · simp [exit_of_ends h, h]
  · simp [status_of_not_ends h, h]

end Run

theorem status_eq_zero_or_one :
    (runCommand limits settings world read arguments).status = 0 ∨
      (runCommand limits settings world read arguments).status = 1 := by
  by_cases h : ∃ ts program, LoadsProgram read arguments ts program
  · obtain ⟨ts, program, h⟩ := h
    rw [runCommand_of_program h]
    by_cases hends : (Interpreter.run limits world ∅ program).Ends
    · exact .inl (Run.status_eq_zero.mpr hends)
    · exact .inr (Run.status_of_not_ends hends)
  · exact .inr (runCommand_of_no_program fun ts program hp => h ⟨ts, program, hp⟩).status

theorem status_eq_zero_iff :
    (runCommand limits settings world read arguments).status = 0 ↔
      ∃ ts program, LoadsProgram read arguments ts program ∧
        (Interpreter.run limits world ∅ program).Ends := by
  constructor
  · intro h
    by_cases hp : ∃ ts program, LoadsProgram read arguments ts program
    · obtain ⟨ts, program, hp⟩ := hp
      rw [runCommand_of_program hp] at h
      exact ⟨ts, program, hp, Run.status_eq_zero.mp h⟩
    · have hstatus := (runCommand_of_no_program fun ts program h => hp ⟨ts, program, h⟩ :
        (runCommand limits settings world read arguments).Refuses).status
      rw [h] at hstatus
      cases hstatus
  · rintro ⟨ts, program, hp, hends⟩
    rw [runCommand_of_program hp]
    exact Run.status_eq_zero.mpr hends

/-! ## Errors -/

theorem Run.output_of_failed {run : Run} {e : RuntimeError} (h : run.result = .failed e) :
    (run.exit settings).output = run.output.addError e.report := by
  unfold exit
  rw [h]
  rfl

theorem reportLine_eq (location : Option Location) (message : String) :
    reportLine location message =
      (location.elim "" fun l => "[" ++ l.text ++ "] ") ++ "error: " ++ message ++ "\n" := by
  cases location with
  | none => simp [reportLine, located]
  | some l => simp only [reportLine, located, Option.elim_some, String.append_assoc]

theorem traceLine_eq (site : CallSite) :
    traceLine site = "...within " ++ site.function ++
      (site.location.elim "" fun l => " called from " ++ l.text) ++ "\n" := by
  obtain ⟨function, location⟩ := site
  cases location <;> rfl

/-- The output of a run that fails is that of the state in which the error came up. In this state,
there are only warnings on the error stream, and nothing more has been printed than before the
step. -/
theorem output_of_comesUp {i : Interpreter} {program : Program} {e : RuntimeError} {m : Config}
    {k : List Frame} (h : Config.ComesUp limits world i program e m k) :
    ∃ s, m.step limits world = some ⟨.stop (.error ⟨e.fault, e.location, []⟩), k, s⟩ ∧
      (i.run limits world program).output = s.output ∧
      s.output.stdout = m.state.output.stdout ∧
      ∃ commands : List String, s.output.stderr = String.join (commands.map warningLine) := by
  obtain ⟨s, hstep⟩ := h.step
  have hleads := h.leads.tail hstep
  have hstdout : s.output.stdout = m.state.output.stdout := Config.stdout_of_step_error hstep rfl
  obtain ⟨commands, hcommands⟩ := Config.warned_of_leads hleads
  refine ⟨s, hstep, ?_, hstdout, commands, hcommands.trans String.empty_append⟩
  rw [Config.run_of_error hleads]

variable (limits settings world read arguments) in
/-- **The outcome of the command.** The status is `0` exactly if there is one argument, the file can
be read and is UTF-8, its text with uniform line ends is split into words that form a program, and
the program comes to its end or returns; in all other cases it is `1`, also if a word is broken off
or a literal is too large. Without a program, nothing is printed or plotted; with one, the command
prints and plots what the program does.

If the program fails, what has been printed is what had been printed before the step `m` in which
the error came up. On the error stream there are the listing, if it is wanted, what was on it in the
state `s` after this step, which are the warnings of the program, the report, and a line for each
call in the trace, and nothing else. -/
theorem runCommand_outcome :
    let exit := runCommand limits settings world read arguments
    let run program := Interpreter.run limits world ∅ program
    (exit.status = 0 ↔
      ∃ ts program, LoadsProgram read arguments ts program ∧ (run program).Ends) ∧
    (exit.status = 0 ∨ exit.status = 1) ∧
    (∀ ts error, Loads read arguments ts → ts.ending = .broken error → exit.status = 1) ∧
    ((∀ ts program, ¬ LoadsProgram read arguments ts program) →
      exit.output.stdout = "" ∧ exit.output.plots = []) ∧
    (∀ ts program, LoadsProgram read arguments ts program →
      exit.output.stdout = (run program).output.stdout ∧
        exit.output.plots = (run program).output.plots) ∧
    ∀ ts program e, LoadsProgram read arguments ts program → (run program).result = .failed e →
      ∃ m k s, Config.ComesUp limits world ∅ program e m k ∧
        m.step limits world = some ⟨.stop (.error ⟨e.fault, e.location, []⟩), k, s⟩ ∧
        exit.output.stdout = m.state.output.stdout ∧
        (∃ commands : List String, s.output.stderr = String.join (commands.map fun command =>
          "warning: " ++ quoted command ++ " not found, cannot plot\n")) ∧
        exit.output.stderr = listingIf settings ts ++ (s.output.stderr ++
          ((e.location.elim "" fun l => "[" ++ l.text ++ "] ") ++
            "error: " ++ e.fault.message ++ "\n" ++
            String.join (e.trace.map fun site => "...within " ++ site.function ++
              (site.location.elim "" fun l => " called from " ++ l.text) ++ "\n"))) := by
  intro exit run
  refine ⟨status_eq_zero_iff, status_eq_zero_or_one, fun ts error hts hending => ?_, fun h => ?_,
    fun ts program h => ?_, fun ts program e h hfailed => ?_⟩
  · have hnone (ts' : Tokens) (program : Program) : ¬ LoadsProgram read arguments ts' program := by
      rintro ⟨hts', eof, hcomplete, -⟩
      rw [hts.unique hts', hending] at hcomplete
      cases hcomplete
    exact (runCommand_of_no_program hnone).status
  · have hrefuses : exit.Refuses := runCommand_of_no_program h
    exact ⟨hrefuses.stdout, hrefuses.plots⟩
  · have hexit : exit = _ := runCommand_of_program h
    rw [hexit]
    exact Run.output_exit
  · obtain ⟨m, k, hup⟩ := Config.comesUp_of_failed hfailed
    obtain ⟨s, hstep, houtput, hstdout, hwarned⟩ := output_of_comesUp hup
    have hexit : exit = _ := runCommand_of_program h
    refine ⟨m, k, s, hup, hstep, ?_, hwarned, ?_⟩ <;> rw [hexit]
    · rw [← hstdout, ← houtput]
      exact Run.output_exit.1
    · have hlines : e.trace.map traceLine = _ := List.map_congr_left fun site _ => traceLine_eq site
      rw [← hlines, ← reportLine_eq, ← houtput]
      change listingIf settings ts ++ ((run program).exit settings).output.stderr = _
      rw [Run.output_of_failed hfailed]
      rfl

/-- The body of a function draws a plot, which cannot be done, and then fails. -/
theorem runCommand_outcome_within :
    let l (n : Int) : Option Location := some ⟨some "t.kl", n⟩
    let world : World := ⟨"", false, fun _ => false⟩
    let text := "import math;\nfun f() \x7b plot_function(\"x\"); return 1 / 0; \x7d\n" ++
      "print(\"a\");\nf();"
    let exit := runCommand .standard ⟨none, none, none⟩ world
      (fun _ => .ok (text.toList.flatMap String.utf8EncodeChar)) ["t.kl"]
    let warning := "warning: `gnuplot -persistent` not found, cannot plot\n"
    let report := "[t.kl, line 2] error: division by zero\n" ++
      "...within f called from t.kl, line 4\n"
    exit.status = 1 ∧ exit.output.stdout = "a\n" ∧ exit.output.stderr = warning ++ report ∧
      ∃ program m k s,
        Config.ComesUp .standard world ∅ program ⟨.divisionByZero, l 2, [⟨"f", l 4⟩]⟩ m k ∧
        m.step .standard world = some ⟨.stop (.error ⟨.divisionByZero, l 2, []⟩), k, s⟩ ∧
        m.state.output.stdout = "a\n" ∧ s.output.stderr = warning := by
  intro l world text exit warning report
  let ts := Tokens.ofChars (l 1) (unifyNewlines text.toList)
  let f : Function := ⟨.var, "f", [], ⟨l 2,
    [.evaluate (l 2) (.call (l 2) ⟨none, "plot_function"⟩ [.string (l 2) "x"]),
      .returnValue (l 2) (some (.binary (l 2) .div (.number (l 2) 1) (.number (l 2) 0)))]⟩⟩
  let program : Program := ⟨l 1, [.importModule (l 1) "math", .define (l 2) f,
    .print (l 3) [.string (l 3) "a"], .evaluate (l 4) (.call (l 4) ⟨none, "f"⟩ [])]⟩
  obtain ⟨words, hstatements, hwords⟩ :
      ∃ words, IsStatements words program.statements ∧ ts.words = words := by
    have hnumber {mode : Mode} {s : Stratum} (l : Option Location) (text : String) (x : Number) :
        Derives mode s [⟨.number text x, l⟩] (.number l x) :=
      (Derives.number l text x).of_primary
    have hstring {mode : Mode} (l : Option Location) (text : String) :
        IsExpr mode [⟨.string text, l⟩] (.string l text) :=
      (Derives.string l text).of_primary
    have harguments : ∀ a ∈ [([⟨.string "x", l 2⟩], .string (l 2) "x")],
        IsExpr .plain a.1 a.2 := by
      simpa using hstring (l 2) "x"
    have hplot : Derives .plain .postfixed _ _ :=
      .call (l 2) (l 2) (.next (.name (l 2) "plot_function")) (.cons .nil) harguments
    have hdiv := @Derives.binary .plain .div _ _ _ _ (l 2) nofun (.inl rfl)
      (hnumber (l 2) "1" 1) (hnumber (l 2) "0" 0)
    have hnone : ∀ a ∈ ([] : List (List Token × Expr)), IsExpr .plain a.1 a.2 := by simp
    have hcall : Derives .plain .postfixed _ _ :=
      .call (l 4) (l 4) (.next (.name (l 4) "f")) .nil hnone
    have hheader : IsHeader _ (.var, "f", []) :=
      .mk (l 2) (l 2) (l 2) "f" .absent ⟨⟨[], .nil, by simp, rfl⟩, .nil⟩
    have hbody : IsBlock _ f.body := .mk (l 2) (l 2) <|
      .cons (.evaluate (l 2) (l 2) "plot_function" hplot.loosest) <|
      .cons (.returnValue (l 2) (l 2) hdiv.loosest) .nil
    have hitems : IsList .add (IsExpr .items) _ [.string (l 3) "a"] :=
      ⟨[(_, _)], .cons .nil, by simpa using hstring (l 3) "a", rfl⟩
    refine ⟨_, .cons (.importModule (l 1) (l 1) (l 1) "math") <|
      .cons (.define (l 2) hheader hbody) <| .cons (.print (l 3) (l 3) (l 3) (l 3) hitems) <|
      .cons (.evaluate (l 4) (l 4) "f" hcall.loosest) .nil, ?_⟩
    decide +kernel
  have hprogram : LoadsProgram (fun _ => .ok (text.toList.flatMap String.utf8EncodeChar))
      ["t.kl"] ts program := by
    refine ⟨.mk rfl rfl, l 4, ?_, hwords ▸ hstatements, ?_⟩ <;> decide +kernel
  have hresult : (Interpreter.run .standard world ∅ program).result =
      .failed ⟨.divisionByZero, l 2, [⟨"f", l 4⟩]⟩ := rfl
  have houtput : (Interpreter.run .standard world ∅ program).output =
      ⟨"a\n", warningLine "gnuplot -persistent", []⟩ := rfl
  have hends : ¬ (Interpreter.run .standard world ∅ program).Ends := by
    rintro (h | ⟨v, h⟩) <;> cases hresult.symm.trans h
  have hexit : exit = (Interpreter.run .standard world ∅ program).exit ⟨none, none, none⟩ :=
    (runCommand_of_program hprogram).trans (Exit.afterError_empty _)
  have hwarning : warningLine "gnuplot -persistent" = warning := by
    simp [warningLine, quoted, warning]
  have hwritten : exit.output = ⟨"a\n", warning ++ report, []⟩ := by
    rw [hexit, Run.output_of_failed hresult, houtput, hwarning]
    rfl
  obtain ⟨-, -, -, -, -, hfails⟩ := runCommand_outcome .standard ⟨none, none, none⟩ world
    (fun _ => .ok (text.toList.flatMap String.utf8EncodeChar)) ["t.kl"]
  obtain ⟨m, k, s, hup, hstep, hprinted, -, hlines⟩ := hfails ts program _ hprogram hresult
  have hstatus : exit.status = 1 := by
    rw [hexit]
    exact Run.status_of_not_ends hends
  have hstdout : exit.output.stdout = "a\n" := congrArg Output.stdout hwritten
  have hstderr : exit.output.stderr = warning ++ report := congrArg Output.stderr hwritten
  have hwarned : s.output.stderr ++ report = warning ++ report := by
    rw [← hstderr]
    exact (hlines.trans String.empty_append).symm
  exact ⟨hstatus, hstdout, hstderr, program, m, k, s, hup, hstep, hprinted.symm.trans hstdout,
    (String.append_left_inj report).mp hwarned⟩

end KLang
