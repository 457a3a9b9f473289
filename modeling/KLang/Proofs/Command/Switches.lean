import KLang.Proofs.Command.Outcome

/-!
# The switches of the command only report

The listing of tokens and the dump of the interpreter add text to the error stream and change nothing
else. The listing needs all tokens before the program is read. That makes no difference to the
outcome, since a program is only read up to the end of the text: where a word is broken off, there is
no program in either case.

* `runCommand_listed`: what the listing adds.
* `runCommand_dumped`: what the dump adds.
* `Tokens.listing_of_complete`, `Interpreter.dump_eq`: what the listing and the dump consist of.
* `switches_only_report`: the result.
-/

namespace KLang

variable {limits : Limits} {world : World} {read : String → Except FileFault (List UInt8)}
  {arguments : List String} {ts : Tokens} {dump dump' tokens tokens' plotCommand : Option String}

/-! ## The listing -/

theorem runCommand_of_broken (settings : Settings) {error : LexError}
    (h : Loads read arguments ts) (hending : ts.ending = .broken error) :
    (runCommand limits settings world read arguments).Refuses := by
  refine runCommand_of_no_program fun ts' program ⟨hts', eof, hcomplete, _⟩ => ?_
  rw [h.unique hts', hending] at hcomplete
  cases hcomplete

/-- The listing of a text that is split into words to its end comes in front of everything else. -/
theorem runCommand_listed (htokens : enabled tokens = true) (htokens' : enabled tokens' = false)
    {eof : Option Location} (h : Loads read arguments ts) (hending : ts.ending = .complete eof) :
    runCommand limits ⟨dump, tokens, plotCommand⟩ world read arguments =
      (runCommand limits ⟨dump, tokens', plotCommand⟩ world read arguments).afterError
        ts.listing := by
  have hlisting : listingIf ⟨dump, tokens, plotCommand⟩ ts = ts.listing := if_pos htokens
  have hnone : listingIf ⟨dump, tokens', plotCommand⟩ ts = "" := by simp [listingIf, htokens']
  rw [runCommand_of_complete h hending, runCommand_of_complete h hending, hlisting, hnone,
    Exit.afterError_empty]
  -- the run itself does not look at this setting
  rfl

/-! ## The dump -/

theorem Run.exit_of_not_ends {run : Run} (h : ¬ run.Ends) :
    run.exit ⟨dump, tokens, plotCommand⟩ = run.exit ⟨dump', tokens, plotCommand⟩ := by
  obtain ⟨result, i, output⟩ := run
  cases result with
  | done => exact (h (.inl rfl)).elim
  | returned v => exact (h (.inr ⟨v, rfl⟩)).elim
  | failed e => rfl
  | callLimit => rfl
  | roundLimit => rfl

theorem runTokens_of_no_program {settings settings' : Settings}
    (h : ∀ program, Program.ofTokens ts ≠ .ok program) :
    runTokens limits settings world ts = runTokens limits settings' world ts := by
  rw [runTokens, runTokens]
  cases hread : Program.ofTokens ts with
  | error e => rfl
  | ok program => exact (h program hread).elim

theorem runCommand_of_no_dump (h : ∀ ts program, ¬ LoadsProgram read arguments ts program) :
    runCommand limits ⟨dump, tokens, plotCommand⟩ world read arguments =
      runCommand limits ⟨dump', tokens, plotCommand⟩ world read arguments := by
  by_cases hloads : ∃ ts, Loads read arguments ts
  · obtain ⟨ts, hts⟩ := hloads
    have hnone (program : Program) (hread : Program.ofTokens ts = .ok program) : False :=
      h ts program ⟨hts, Program.ofTokens_eq_ok.mp hread⟩
    rw [runCommand_of_loads hts, runCommand_of_loads hts, listAndRun, listAndRun,
      runTokens_of_no_program hnone]
  · obtain ⟨exit, -, heq⟩ := runCommand_of_not_loads fun ts hts => hloads ⟨ts, hts⟩
    rw [heq, heq]

/-- A dump is there if the status is `0`, behind everything else. -/
theorem runCommand_dumped (hdump : enabled dump = true) (hdump' : enabled dump' = false) :
    let dumped := runCommand limits ⟨dump, tokens, plotCommand⟩ world read arguments
    let plain := runCommand limits ⟨dump', tokens, plotCommand⟩ world read arguments
    (plain.status ≠ 0 → dumped = plain) ∧
    (plain.status = 0 → ∃ ts program, LoadsProgram read arguments ts program ∧
      dumped = { plain with output :=
        plain.output.addError (Interpreter.run limits world ∅ program).interpreter.dump }) := by
  intro dumped plain
  constructor
  · intro hstatus
    by_cases hp : ∃ ts program, LoadsProgram read arguments ts program
    · obtain ⟨ts, program, hp⟩ := hp
      have hdumped : dumped = _ := runCommand_of_program hp
      have hplain : plain = _ := runCommand_of_program hp
      have hends : ¬ (Interpreter.run limits world ∅ program).Ends := fun hends =>
        hstatus (status_eq_zero_iff.mpr ⟨ts, program, hp, hends⟩)
      rw [hdumped, hplain, Run.exit_of_not_ends hends]
      rfl
    · exact runCommand_of_no_dump fun ts program h => hp ⟨ts, program, h⟩
  · intro hstatus
    obtain ⟨ts, program, hp, hends⟩ := status_eq_zero_iff.mp hstatus
    have hdumped : dumped = _ := runCommand_of_program hp
    have hplain : plain = _ := runCommand_of_program hp
    rw [Run.exit_of_ends hends] at hdumped hplain
    refine ⟨ts, program, hp, ?_⟩
    rw [hdumped, hplain]
    simp only [hdump, hdump', if_true, Exit.afterError, Output.addError, String.append_assoc]
    rfl

/-! ## What is listed and dumped -/

theorem listingRow_eq (location : Option Location) (className text : String) :
    let line := toString ((location.map Location.line).getD 0)
    listingRow location className text = String.ofList (List.replicate (4 - line.length) ' ') ++
      line ++ " " ++ className ++ String.ofList (List.replicate (10 - className.length) ' ') ++
      " " ++ text ++ "\n" := by
  intro line
  have hline : String.ofList (line.toList.leftpad 4 ' ') =
      String.ofList (List.replicate (4 - line.length) ' ') ++ line := by
    rw [List.leftpad, String.ofList_append, String.ofList_toList, String.length_toList]
  have hclass : String.ofList (className.toList.rightpad 10 ' ') =
      className ++ String.ofList (List.replicate (10 - className.length) ' ') := by
    rw [List.rightpad, String.ofList_append, String.ofList_toList, String.length_toList]
  rw [listingRow, hline, hclass]
  simp only [String.append_assoc]

/-- A listing has a row for each token and one for the end of the text. -/
theorem Tokens.listing_of_complete {ts : Tokens} {eof : Option Location}
    (h : ts.ending = .complete eof) :
    let row (location : Option Location) (className text : String) :=
      let line := toString ((location.map Location.line).getD 0)
      String.ofList (List.replicate (4 - line.length) ' ') ++ line ++ " " ++ className ++
        String.ofList (List.replicate (10 - className.length) ' ') ++ " " ++ text ++ "\n"
    ts.listing = String.join (ts.words.map fun t =>
      row t.location t.lexeme.className t.lexeme.text) ++ row eof "EOF" "end-of-file" := by
  intro row
  have hrow (location : Option Location) (className text : String) :
      row location className text = listingRow location className text :=
    (listingRow_eq location className text).symm
  simp only [hrow, listing, h]
  rfl

/-- A dump has a line for each global variable and one for each function. -/
theorem Interpreter.dump_eq (i : Interpreter) : i.dump =
    "variables:\n" ++ String.join (i.globals.entries.map fun (name, v) =>
      "    " ++ name ++ " = " ++ (match v with
        | .string text => "\"" ++ text ++ "\""
        | v => v.text) ++ "\n") ++
    "functions:\n" ++ String.join (i.functions.values.map fun f =>
      "    " ++ f.name ++ "(" ++ ", ".intercalate (f.parameters.map fun p =>
        p.kind.text ++ " " ++ p.name) ++ ") -> " ++ f.kind.text ++ "\n") := by
  have hsignature (f : Function) : "    " ++ f.signature ++ "\n" = "    " ++ f.name ++ "(" ++
      ", ".intercalate (f.parameters.map fun p => p.kind.text ++ " " ++ p.name) ++ ") -> " ++
      f.kind.text ++ "\n" := by
    have hparameter : Parameter.text = fun p => p.kind.text ++ " " ++ p.name := rfl
    rw [Function.signature, hparameter]
    simp only [String.append_assoc]
  simp only [← hsignature]
  rfl

/-! ## Both switches -/

variable (limits world read arguments) in
/-- **The switches only report.** The status, what is printed and what is plotted are the same with
the listing and without. If the text is split into words to its end, the listing adds itself in
front of what is on the error stream; if not, the command ends with status `1` in both cases and
neither prints nor plots; and without a text, it ends in the same way. The dump adds itself behind
everything else if the status is `0`, and else nothing.

The listing has a row for each token and one for the end of the text, each with the line in a column
of four, the class of the token in a column of ten, and its text. The dump has a line for each global
variable and one for each function. -/
theorem switches_only_report :
    (∀ dump tokens tokens' plotCommand, enabled tokens = true → enabled tokens' = false →
      let listed := runCommand limits ⟨dump, tokens, plotCommand⟩ world read arguments
      let plain := runCommand limits ⟨dump, tokens', plotCommand⟩ world read arguments
      listed.status = plain.status ∧ listed.output.stdout = plain.output.stdout ∧
      listed.output.plots = plain.output.plots ∧
      (∀ ts eof, Loads read arguments ts → ts.ending = .complete eof →
        listed = { plain with output :=
          { plain.output with stderr := ts.listing ++ plain.output.stderr } }) ∧
      (∀ ts error, Loads read arguments ts → ts.ending = .broken error →
        ∀ exit ∈ [listed, plain],
          exit.status = 1 ∧ exit.output.stdout = "" ∧ exit.output.plots = []) ∧
      ((∀ ts, ¬ Loads read arguments ts) → listed = plain)) ∧
    (∀ dump dump' tokens plotCommand, enabled dump = true → enabled dump' = false →
      let dumped := runCommand limits ⟨dump, tokens, plotCommand⟩ world read arguments
      let plain := runCommand limits ⟨dump', tokens, plotCommand⟩ world read arguments
      (plain.status ≠ 0 → dumped = plain) ∧
      (plain.status = 0 → ∃ ts program, LoadsProgram read arguments ts program ∧
        dumped = { plain with output := { plain.output with stderr :=
          plain.output.stderr ++
            (Interpreter.run limits world ∅ program).interpreter.dump } })) ∧
    (∀ (ts : Tokens) (eof : Option Location), ts.ending = .complete eof →
      let row (location : Option Location) (className text : String) :=
        let line := toString ((location.map Location.line).getD 0)
        String.ofList (List.replicate (4 - line.length) ' ') ++ line ++ " " ++ className ++
          String.ofList (List.replicate (10 - className.length) ' ') ++ " " ++ text ++ "\n"
      ts.listing = String.join (ts.words.map fun t =>
        row t.location t.lexeme.className t.lexeme.text) ++ row eof "EOF" "end-of-file") ∧
    ∀ i : Interpreter, i.dump =
      "variables:\n" ++ String.join (i.globals.entries.map fun (name, v) =>
        "    " ++ name ++ " = " ++ (match v with
          | .string text => "\"" ++ text ++ "\""
          | v => v.text) ++ "\n") ++
      "functions:\n" ++ String.join (i.functions.values.map fun f =>
        "    " ++ f.name ++ "(" ++ ", ".intercalate (f.parameters.map fun p =>
          p.kind.text ++ " " ++ p.name) ++ ") -> " ++ f.kind.text ++ "\n") := by
  refine ⟨fun dump tokens tokens' plotCommand htokens htokens' => ?_,
    fun dump dump' tokens plotCommand hdump hdump' => runCommand_dumped hdump hdump',
    fun ts eof => Tokens.listing_of_complete, Interpreter.dump_eq⟩
  intro listed plain
  have hcomplete {ts : Tokens} {eof : Option Location} (hts : Loads read arguments ts)
      (hending : ts.ending = .complete eof) : listed = plain.afterError ts.listing :=
    runCommand_listed htokens htokens' hts hending
  have hbroken {ts : Tokens} {error : LexError} (hts : Loads read arguments ts)
      (hending : ts.ending = .broken error) : listed.Refuses ∧ plain.Refuses :=
    ⟨runCommand_of_broken _ hts hending, runCommand_of_broken _ hts hending⟩
  have hnone (h : ∀ ts, ¬ Loads read arguments ts) : listed = plain := by
    obtain ⟨exit, -, heq⟩ := runCommand_of_not_loads h
    exact (heq ..).trans (heq ..).symm
  have hsame : listed.status = plain.status ∧ listed.output.stdout = plain.output.stdout ∧
      listed.output.plots = plain.output.plots := by
    by_cases hloads : ∃ ts, Loads read arguments ts
    · obtain ⟨ts, hts⟩ := hloads
      cases hending : ts.ending with
      | complete eof =>
        rw [hcomplete hts hending]
        exact ⟨rfl, rfl, rfl⟩
      | broken error =>
        obtain ⟨hlisted, hplain⟩ := hbroken hts hending
        exact ⟨hlisted.status.trans hplain.status.symm, hlisted.stdout.trans hplain.stdout.symm,
          hlisted.plots.trans hplain.plots.symm⟩
    · rw [hnone fun ts hts => hloads ⟨ts, hts⟩]
      exact ⟨rfl, rfl, rfl⟩
  refine ⟨hsame.1, hsame.2.1, hsame.2.2, fun ts eof => hcomplete, fun ts error hts hending => ?_,
    hnone⟩
  obtain ⟨hlisted, hplain⟩ := hbroken hts hending
  simpa using ⟨⟨hlisted.status, hlisted.stdout, hlisted.plots⟩, hplain.status, hplain.stdout,
    hplain.plots⟩

/-- A declaration, with neither of the switches, with the listing and with the dump. -/
theorem switches_only_report_declare :
    let world : World := ⟨"", false, fun _ => false⟩
    let read : String → Except FileFault (List UInt8) :=
      fun _ => .ok ("str x = \"a\";".toList.flatMap String.utf8EncodeChar)
    let exit dump tokens := runCommand .standard ⟨dump, tokens, none⟩ world read ["t.kl"]
    exit none none = ⟨0, ∅, none, none⟩ ∧
      exit none (some "1") = ⟨0, ⟨"",
        "   1 STR        str\n   1 IDENTIFIER x\n   1 ASSIGN     =\n" ++
          "   1 STRING     \"a\"\n   1 SEMICOLON  ;\n   1 EOF        end-of-file\n", []⟩, none, none⟩ ∧
      exit (some "1") none =
        ⟨0, ⟨"", "variables:\n    x = \"a\"\nfunctions:\n", []⟩, none, none⟩ := by
  intro world read exit
  let l : Option Location := some ⟨some "t.kl", 1⟩
  let ts := Tokens.ofChars l (unifyNewlines "str x = \"a\";".toList)
  have hwords : ts.words = [⟨.keyword (.kind .str), l⟩, ⟨.identifier "x", l⟩,
      ⟨.symbol .assign, l⟩, ⟨.string "a", l⟩, ⟨.symbol .semicolon, l⟩] := by decide +kernel
  have hending : ts.ending = .complete l := by decide +kernel
  have hloads : Loads read ["t.kl"] ts := .mk rfl rfl
  have hstring : IsExpr .plain [⟨.string "a", l⟩] (.string l "a") :=
    (Derives.string l "a").of_primary
  have hprogram : LoadsProgram read ["t.kl"] ts ⟨l, [.declare l .str "x" (.string l "a")]⟩ := by
    refine ⟨hloads, l, hending, ?_, ?_⟩ <;> rw [hwords]
    · exact .cons (.declare l l l l .str "x" hstring) .nil
    · rfl
  have hplain : runCommand .standard ⟨none, none, none⟩ world read ["t.kl"] = ⟨0, ∅, none, none⟩ :=
    (runCommand_of_program hprogram).trans rfl
  have hlisting : ts.listing = "   1 STR        str\n   1 IDENTIFIER x\n   1 ASSIGN     =\n" ++
      "   1 STRING     \"a\"\n   1 SEMICOLON  ;\n   1 EOF        end-of-file\n" := by decide +kernel
  have hon : enabled (some "1") = true := by decide +kernel
  obtain ⟨hlistings, hdumps, -⟩ := switches_only_report .standard world read ["t.kl"]
  obtain ⟨-, -, -, hlisted, -⟩ := hlistings none (some "1") none none hon rfl
  obtain ⟨ts', program, hprogram', hdumped⟩ :=
    (hdumps (some "1") none none none hon rfl).2 (congrArg Exit.status hplain)
  obtain ⟨rfl, rfl⟩ := hprogram.unique hprogram'
  refine ⟨hplain, (hlisted ts l hloads hending).trans ?_, hdumped.trans ?_⟩
  · rw [hplain, hlisting]
    rfl
  · rw [hplain]
    rfl

end KLang
