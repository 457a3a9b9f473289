import KLang.Proofs.Composition
import KLang.Proofs.History

/-!
# Imports in any order

* `Interpreter.SameImports.run`: programs do the same where modules have been imported in another
  order.
* `Program.ofText_import`: an import in front of a text is one in front of its statements.
* `execution_import_swap`: two imports in front of statements may be swapped.
* `Session.import_order_irrelevant`: all of it for texts.
-/

namespace KLang

/-! ## Texts that begin with an import -/

/-- The tokens with an import in front of them. -/
def Tokens.importing (location : Option Location) (name : String) (ts : Tokens) : Tokens :=
  cons ⟨.keyword .importWord, location⟩
    (cons ⟨.identifier name, location⟩ (cons ⟨.symbol .semicolon, location⟩ ts))

theorem Tokens.ofChars_word {here : Option Location} {c : Char} {cs u v : List Char} {l : Lexeme}
    (hskip : skipTrivia false 0 cs = (0, c :: u)) (hscan : Lexeme.scan c u = .ok (l, v))
    (hl : l.newlines = 0) : ofChars here cs = cons ⟨l, here⟩ (ofChars here v) := by
  rw [ofChars_of_ok hskip hscan, hl, map_down_zero]

theorem Tokens.ofChars_import (c : Char) (name : List Char) {here : Option Location}
    (hskip : ∀ cs, skipTrivia false 0 (' ' :: c :: cs) = (0, c :: cs))
    (hscan : ∀ cs, Lexeme.scan c (name ++ ';' :: cs) =
      .ok (.identifier (String.ofList (c :: name)), ';' :: cs)) (cs : List Char) :
    ofChars here ("import ".toList ++ (c :: name ++ ("; ".toList ++ cs))) =
      (ofChars here cs).importing here (String.ofList (c :: name)) := by
  have himport : Lexeme.scan 'i' ("mport ".toList ++ (c :: name ++ ("; ".toList ++ cs))) =
      .ok (.keyword .importWord, ' ' :: c :: name ++ ("; ".toList ++ cs)) := rfl
  have hsemicolon : Lexeme.scan ';' (' ' :: cs) = .ok (.symbol .semicolon, ' ' :: cs) := rfl
  have hbreak : skipTrivia false 0 (' ' :: cs) =
      ((skipTrivia false 0 cs).1 + 0, (skipTrivia false 0 cs).2) := rfl
  calc ofChars here ("import ".toList ++ (c :: name ++ ("; ".toList ++ cs)))
    _ = cons ⟨.keyword .importWord, here⟩
          (ofChars here (' ' :: c :: (name ++ ';' :: ' ' :: cs))) := ofChars_word rfl himport rfl
    _ = cons ⟨.keyword .importWord, here⟩ (cons ⟨.identifier (String.ofList (c :: name)), here⟩
          (ofChars here (';' :: ' ' :: cs))) := by rw [ofChars_word (hskip _) (hscan _) rfl]
    _ = cons ⟨.keyword .importWord, here⟩ (cons ⟨.identifier (String.ofList (c :: name)), here⟩
          (cons ⟨.symbol .semicolon, here⟩ (ofChars here (' ' :: cs)))) := by
        rw [ofChars_word rfl hsemicolon rfl]
    _ = (ofChars here cs).importing here (String.ofList (c :: name)) := by
        rw [ofChars_of_skipTrivia hbreak, map_down_zero]
        rfl

theorem parseAll_import (eof l l₁ r : Option Location) (name : String) (ts : List Token) :
    parseAll eof (⟨.keyword .importWord, l⟩ :: ⟨.identifier name, l₁⟩ ::
      ⟨.symbol .semicolon, r⟩ :: ts) = (.importModule l name :: ·) <$> parseAll eof ts := by
  refine parseAll_of_outcome ?_
  rw [outcome_parseStatement_import, parseImport_eq_ok]
  exact ⟨name, l₁, r, rfl, rfl⟩

theorem Program.ofTokens_import (l : Option Location) (name : String) (ts : Tokens) :
    (Program.ofTokens (ts.importing l name)).map (·.statements) =
      ((Program.ofTokens ts).map (·.statements)).map (.importModule l name :: ·) := by
  obtain ⟨words, ending⟩ := ts
  have hread (eof : Option Location) := parseAll_import eof l l l name words
  unfold Program.ofTokens
  cases ending with
  | complete eof =>
    simp only [Tokens.importing, Tokens.cons, parseProgram, hread]
    cases parseAll eof words <;> rfl
  | broken e =>
    simp only [Tokens.importing, Tokens.cons, parseProgram, hread]
    cases parseAll e.location words <;> rfl

/-- An import in front of a text is one in front of its statements. -/
theorem Program.ofText_import {name : String} {library : Library}
    (h : Library.find? name = some library) (p : String) (location : Option Location) :
    (Program.ofText ("import " ++ name ++ "; " ++ p) location).map (·.statements) =
      ((Program.ofText p location).map (·.statements)).map (.importModule location name :: ·) := by
  have htext : Tokens.ofText ("import " ++ name ++ "; " ++ p) location =
      (Tokens.ofText p location).importing location name := by
    simp only [Tokens.ofText, String.toList_append, List.append_assoc]
    obtain rfl | rfl := Library.name_of_find? h
    · exact Tokens.ofChars_import 'm' ['a', 't', 'h'] (fun _ => rfl) (fun _ => rfl) p.toList
    · exact Tokens.ofChars_import 't' ['r', 'i', 'g'] (fun _ => rfl) (fun _ => rfl) p.toList
  rw [Program.ofText, htext, Program.ofTokens_import]
  rfl

/-! ## Runs -/

/-- Two runs give the same, and leave interpreters that are the same but for the order of modules. -/
structure Run.SameImports (r r' : Run) : Prop where
  result : r'.result = r.result
  output : r'.output = r.output
  interpreter : r.interpreter.SameImports r'.interpreter

namespace Interpreter

variable (limits : Limits) (world : World) {i i' : Interpreter}

/-- The run of statements from a state at the top level. -/
def runFrom (s : State) (ss : List Statement) : Run :=
  ending ((execution limits world ss).verdict s) ((execution limits world ss).after s)

theorem runFrom_reordered {s s' : State} (h : Reordered s s') (ss : List Statement) :
    (runFrom limits world s ss).SameImports (runFrom limits world s' ss) := by
  have hall := reordered_bisimulation.discipline
  obtain ⟨hverdict, hafter⟩ := hall.execAll world
    (hall.enterBody world limits.rounds limits.calls) limits.rounds ss s s' h
  rw [runFrom, runFrom, execution, hverdict]
  exact ⟨rfl, hafter.output, hafter.sameImports⟩

/-- Where modules have been imported in another order, a program does the same. -/
theorem SameImports.run (h : i.SameImports i') (hi : i.Registered) (program : Program) :
    (i.run limits world program).SameImports (i'.run limits world program) := by
  have hstart : Reordered i.start i'.start := by
    obtain ⟨globals, functions, imported⟩ := i'
    obtain ⟨rfl, rfl, himported⟩ := h
    exact .intro imported himported hi
  rw [run_eq, run_eq]
  exact runFrom_reordered limits world hstart program.statements

/-! ## Imports -/

theorem run_import {name : String} {library : Library} (h : Library.find? name = some library)
    (enter : Enter) (rounds : Nat) (l : Option Location) (s : State) :
    (execStatement world enter rounds (.importModule l name)).run s =
      .ok .next (s.addImport name library) := by
  rw [execStatement, importModule, h]
  rfl

theorem runFrom_import {name : String} {library : Library} (h : Library.find? name = some library)
    (l : Option Location) (s : State) (ss : List Statement) :
    runFrom limits world s (.importModule l name :: ss) =
      runFrom limits world (s.addImport name library) ss := by
  have hrun : (execution limits world (.importModule l name :: ss)).run s =
      (execution limits world ss).run (s.addImport name library) := by
    rw [execution, execAll, Eval.run_bind_of_ok (run_import world h _ _ l s)]
    rfl
  rw [runFrom, Eval.verdict, Eval.after, hrun]
  rfl

theorem runFrom_import_swap {s : State} (hs : s.Registered) {name name' : String}
    (hne : name ≠ name') {library library' : Library} (h : Library.find? name = some library)
    (h' : Library.find? name' = some library') (l l' : Option Location) (ss : List Statement) :
    (runFrom limits world s (.importModule l name :: .importModule l' name' :: ss)).SameImports
      (runFrom limits world s (.importModule l' name' :: .importModule l name :: ss)) := by
  rw [runFrom_import limits world h, runFrom_import limits world h',
    runFrom_import limits world h', runFrom_import limits world h]
  exact runFrom_reordered limits world (.addImport_swap hs hne h h') ss

end Interpreter

/-! ## Sessions -/

namespace Session

variable (limits : Limits) (world : World) (s : Session)

theorem eval_eq (source : String) (location : Option Location) :
    s.eval limits world source location =
      match (Program.ofText source location).map (·.statements) with
      | .ok ss =>
        let r := Interpreter.runFrom limits world s.interpreter.start ss
        (.ok r.result, ⟨r.interpreter, s.output ++ r.output⟩)
      | .error e => (.error e, s) := by
  cases hprogram : Program.ofText source location with
  | error e => exact s.eval_of_error limits world hprogram
  | ok program =>
    rw [s.eval_of_ok limits world hprogram, Interpreter.run_eq]
    rfl

theorem eval_import_swap (hs : s.interpreter.Registered) {name name' : String} (hne : name ≠ name')
    {library library' : Library} (h : Library.find? name = some library)
    (h' : Library.find? name' = some library') (p : String) (location : Option Location) :
    let e := s.eval limits world ("import " ++ name ++ "; " ++ ("import " ++ name' ++ "; " ++ p))
      location
    let e' := s.eval limits world ("import " ++ name' ++ "; " ++ ("import " ++ name ++ "; " ++ p))
      location
    e'.1 = e.1 ∧ e'.2.output = e.2.output ∧ e.2.interpreter.SameImports e'.2.interpreter := by
  simp only [eval_eq, Program.ofText_import h, Program.ofText_import h']
  cases (Program.ofText p location).map (·.statements) with
  | error e => exact ⟨rfl, rfl, rfl, rfl, .refl _⟩
  | ok ss =>
    have hstart : s.interpreter.start.Registered := hs
    have hswap := Interpreter.runFrom_import_swap limits world hstart hne h h' location location ss
    exact ⟨congrArg Except.ok hswap.result, congrArg (s.output ++ ·) hswap.output,
      hswap.interpreter⟩

/-- **The order of imports is irrelevant.** Where the same modules of the registry have been imported
in another order, a program gives the same result and writes the same, and the interpreters after it
again differ in the order of their modules at most. So two imports in front of a text may be
swapped. To import a module again changes nothing at all. In every interpreter that texts have been
run in, all modules are those of the registry. -/
theorem import_order_irrelevant :
    (∀ (i i' : Interpreter) (program : Program), i.Registered → i.SameImports i' →
      (i.run limits world program).SameImports (i'.run limits world program)) ∧
    (∀ (s : Session) (p : String) (location : Option Location), s.interpreter.Registered →
      let e := s.eval limits world ("import math; import trig; " ++ p) location
      let e' := s.eval limits world ("import trig; import math; " ++ p) location
      e'.1 = e.1 ∧ e'.2.output = e.2.output ∧ e.2.interpreter.SameImports e'.2.interpreter) ∧
    (∀ (enter : Enter) (rounds : Nat) (l : Option Location) (name : String) (s : State),
      s.Registered → name ∈ s.imported.names →
        (execStatement world enter rounds (.importModule l name)).run s = .ok .next s) ∧
    ∀ i, Interpreter.History ∅ i → i.Registered := by
  refine ⟨fun i i' program hi h => h.run limits world hi program, fun s p location hs => ?_,
    fun enter rounds l name s hs hname => ?_, fun i hi => ?_⟩
  · have hline (name name' : String) :
        "import " ++ name ++ "; " ++ ("import " ++ name' ++ "; " ++ p) =
          "import " ++ name ++ "; import " ++ name' ++ "; " ++ p := by
      have hsplit : "; import " = "; " ++ "import " := by decide
      simp only [hsplit, String.append_assoc]
    have hmath : Library.find? "math" = some .math := rfl
    have htrig : Library.find? "trig" = some .trig := rfl
    have hne : "math" ≠ "trig" := by decide
    have hswap := s.eval_import_swap limits world hs hne hmath htrig p location
    rw [hline, hline] at hswap
    exact hswap
  · obtain ⟨library, hlibrary⟩ := hs.find?_of_mem hname
    rw [Interpreter.run_import world hlibrary, State.addImport_of_mem hs hname hlibrary]
  · exact (Interpreter.sound_empty.history hi).1.registered

theorem import_order_irrelevant_pi :
    let world : World := ⟨"", false, fun _ => false⟩
    let i : Interpreter := ⟨∅, ∅, ⟨[("math", .math), ("trig", .trig)]⟩⟩
    let i' : Interpreter := ⟨∅, ∅, ⟨[("trig", .trig), ("math", .math)]⟩⟩
    let program : Program := ⟨none, [.print none [.variable none ⟨none, "pi"⟩]]⟩
    let e := eval .standard world ⟨∅, ∅⟩ ("import math; import trig; " ++ "print(pi);") none
    let e' := eval .standard world ⟨∅, ∅⟩ ("import trig; import math; " ++ "print(pi);") none
    i.Registered ∧ i.SameImports i' ∧
      (i.run .standard world program).SameImports (i'.run .standard world program) ∧
      (e'.1 = e.1 ∧ e'.2.output = e.2.output ∧ e.2.interpreter.SameImports e'.2.interpreter) ∧
      (execStatement world (enterBody world 1 1) 1 (.importModule none "trig")).run i.start =
        .ok .next i.start := by
  intro world i i' program e e'
  have hi : i.Registered := by
    intro entry hentry
    obtain rfl | hentry := List.mem_cons.mp hentry
    · rfl
    · obtain rfl := List.mem_singleton.mp hentry
      rfl
  have hempty : Interpreter.Registered ∅ := fun _ h => absurd h List.not_mem_nil
  have hsame : i.SameImports i' := ⟨rfl, rfl, .swap _ _ []⟩
  obtain ⟨hruns, htexts, hagain, -⟩ := import_order_irrelevant .standard world
  exact ⟨hi, hsame, hruns i i' program hi hsame, htexts ⟨∅, ∅⟩ "print(pi);" none hempty,
    hagain _ 1 none "trig" i.start hi (by decide)⟩

end Session

end KLang
