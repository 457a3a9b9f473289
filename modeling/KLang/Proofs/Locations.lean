import KLang.Proofs.Composition
import KLang.Proofs.Evaluation.Relocation

/-!
# Texts at other locations

The location at which a text is said to begin has no influence on what the text does. Each stage
from the text to its run carries locations along, so it takes a relocated input to the relocated
output; the stages are put one behind the other at the end.

* `rebased`: the change of locations from one beginning to another.
* `Tokens.ofChars_relocate`, `Program.ofTokens_relocate`, `Interpreter.run_relocate`: the stages.
* `locations_do_not_matter`: the tokens, the program and the run of a text from two beginnings.
-/

namespace KLang

variable (f : Option Location → Option Location)

/-! ## Relocated tokens -/

/-- The error with its location changed. -/
def LexError.relocate (e : LexError) : LexError := { e with location := f e.location }

/-- The ending with its location changed. -/
def Ending.relocate : Ending → Ending
  | .complete l => .complete (f l)
  | .broken e => .broken (e.relocate f)

/-- The tokens with their locations changed. -/
def Tokens.relocate (ts : Tokens) : Tokens :=
  ⟨ts.words.map (Token.relocate f), ts.ending.relocate f⟩

theorem Tokens.relocate_cons (t : Token) (ts : Tokens) :
    (cons t ts).relocate f = cons (t.relocate f) (ts.relocate f) :=
  rfl

/-- The lines of a text are counted from wherever it begins. -/
theorem Tokens.ofChars_relocate {f : Option Location → Option Location}
    (hf : ∀ here n, f (here.map (·.down n)) = (f here).map (·.down n)) (here : Option Location)
    (cs : List Char) : ofChars (f here) cs = (ofChars here cs).relocate f := by
  rcases hskip : skipTrivia false 0 cs with ⟨n, rest⟩
  have hlength := length_skipTrivia_le false 0 cs
  rw [hskip] at hlength
  cases rest with
  | nil =>
    rw [ofChars_of_nil hskip, ofChars_of_nil hskip, ← hf]
    rfl
  | cons c rest =>
    cases hscan : Lexeme.scan c rest with
    | error fault =>
      rw [ofChars_of_error hskip hscan, ofChars_of_error hskip hscan, ← hf]
      rfl
    | ok p =>
      obtain ⟨l, rest'⟩ := p
      have hshorter : rest'.length < cs.length :=
        Nat.lt_of_le_of_lt (Lexeme.length_scan_le hscan) hlength
      rw [ofChars_of_ok hskip hscan, ofChars_of_ok hskip hscan, ← hf, ← hf,
        ofChars_relocate hf _ rest', relocate_cons]
      rfl
termination_by cs.length

/-! ## Relocated programs -/

/-- The error with its locations changed. -/
def SyntaxError.relocate : SyntaxError → SyntaxError
  | .lexical e => .lexical (e.relocate f)
  | .parse p => .parse (p.relocate f)

/-- Relocated tokens are the relocated program. -/
theorem Program.ofTokens_relocate (ts : Tokens) :
    ofTokens (ts.relocate f) =
      ((ofTokens ts).map (Block.relocate f)).mapError (SyntaxError.relocate f) := by
  obtain ⟨words, ending⟩ := ts
  cases ending with
  | complete eof =>
    dsimp only [ofTokens, Tokens.relocate, Ending.relocate]
    rw [parseProgram_relocate]
    cases parseProgram eof words <;> rfl
  | broken e =>
    dsimp only [ofTokens, Tokens.relocate, Ending.relocate, LexError.relocate]
    rw [parseProgram_relocate]
    cases parseProgram e.location words with
    | ok program => rfl
    | error p =>
      by_cases hrest : p.rest = []
      · simp [Except.map, Except.mapError, ParseError.relocate, hrest, SyntaxError.relocate,
          LexError.relocate]
      · simp [Except.map, Except.mapError, ParseError.relocate, hrest, SyntaxError.relocate]

/-! ## Relocated runs -/

/-- The result with its locations changed. -/
def Result.relocate : Result → Result
  | .failed e => .failed (e.relocate f)
  | result => result

/-- The run with its locations changed. What it has written and drawn has none. -/
def Run.relocate (r : Run) : Run :=
  { r with result := r.result.relocate f, interpreter := r.interpreter.relocate f }

theorem Stop.result_relocate (stop : Stop) : (stop.relocate f).result = stop.result.relocate f := by
  cases stop <;> rfl

theorem Flow.result_relocate (flow : Flow) : flow.result.relocate f = flow.result := by
  cases flow <;> rfl

namespace Interpreter

variable (limits : Limits) (world : World)

theorem ending_relocate (verdict : Except Stop Flow) (s : State) :
    ending ((verdict.map id).mapError (Stop.relocate f)) (s.relocate f) =
      (ending verdict s).relocate f := by
  cases verdict with
  | ok flow =>
    exact congrArg (Run.mk · (s.toInterpreter.relocate f) s.output)
      (Flow.result_relocate f flow).symm
  | error stop =>
    exact congrArg (Run.mk · (s.toInterpreter.relocate f) s.output) (Stop.result_relocate f stop)

/-- A relocated program does the same in the relocated interpreter. -/
theorem run_relocate (i : Interpreter) (program : Program) :
    (i.relocate f).run limits world (program.relocate f) =
      (i.run limits world program).relocate f := by
  obtain ⟨l, ss⟩ := program
  have hmoves : Moves f id (execution limits world ss)
      (execution limits world (Statement.relocateAll f ss)) :=
    Moves.execAll world (Moves.enterBody world limits.rounds limits.calls) limits.rounds ss
  obtain ⟨hverdict, hafter⟩ := hmoves i.start
  rw [run_eq, run_eq, ← ending_relocate, ← hverdict, ← hafter]
  rfl

end Interpreter

/-! ## Texts that begin elsewhere -/

/-- A location in a text that begins at `first`, if the text begins at `other` instead: the same
number of lines further down, in the other file. -/
def rebased (first : Location) (other : Option Location) : Option Location → Option Location
  | some l => other.map fun o => ⟨o.file, l.line + (o.line - first.line)⟩
  | none => none

theorem rebased_first (first : Location) (other : Option Location) :
    rebased first other (some first) = other := by
  cases other with
  | none => rfl
  | some o =>
    obtain ⟨file, line⟩ := o
    simp only [rebased, Option.map_some, Option.some.injEq, Location.mk.injEq, true_and]
    omega

theorem rebased_down (first : Location) (other here : Option Location) (n : Nat) :
    rebased first other (here.map (·.down n)) = (rebased first other here).map (·.down n) := by
  cases here with
  | none => rfl
  | some l =>
    cases other with
    | none => rfl
    | some o =>
      simp only [rebased, Option.map_some, Location.down, Option.some.injEq, Location.mk.injEq,
        true_and]
      omega

variable (source : String) (first : Location) (other : Option Location)

theorem Tokens.ofText_rebased :
    Tokens.ofText source other =
      (Tokens.ofText source (some first)).relocate (rebased first other) := by
  rw [ofText, ofText, ← ofChars_relocate (rebased_down first other), rebased_first]

theorem Program.ofText_rebased :
    Program.ofText source other =
      ((Program.ofText source (some first)).map
        (Block.relocate (rebased first other))).mapError
          (SyntaxError.relocate (rebased first other)) := by
  rw [ofText, ofText, Tokens.ofText_rebased source first other, ofTokens_relocate]

theorem Interpreter.runText_rebased (limits : Limits) (world : World) (i : Interpreter) :
    (i.relocate (rebased first other)).runText limits world source other =
      ((i.runText limits world source (some first)).map
        (Run.relocate (rebased first other))).mapError
          (SyntaxError.relocate (rebased first other)) := by
  rw [runText, runText, Program.ofText_rebased source first other]
  cases Program.ofText source (some first) with
  | error e => rfl
  | ok program => exact congrArg Except.ok (run_relocate _ limits world i program)

/-- **Locations do not influence what a text does.** Let a text begin at one location, and then at
another one or at none. Its tokens, its program and its run in a new interpreter, or the error that
it is refused with, are the same but for the locations in them. Each location lies as many lines
below the other beginning, and in its file; if there is no other beginning, there are no locations.
Values, output and plots are equal, and so is the reason of each failure. -/
theorem locations_do_not_matter (limits : Limits) (world : World) :
    Tokens.ofText source other =
        (Tokens.ofText source (some first)).relocate (rebased first other) ∧
      Program.ofText source other =
        ((Program.ofText source (some first)).map
          (Block.relocate (rebased first other))).mapError
            (SyntaxError.relocate (rebased first other)) ∧
      Interpreter.runText limits world ∅ source other =
        ((Interpreter.runText limits world ∅ source (some first)).map
          (Run.relocate (rebased first other))).mapError
            (SyntaxError.relocate (rebased first other)) :=
  ⟨Tokens.ofText_rebased source first other, Program.ofText_rebased source first other,
    Interpreter.runText_rebased source first other limits world ∅⟩

end KLang
