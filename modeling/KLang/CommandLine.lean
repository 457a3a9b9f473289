import KLang.Interpreter.Run
import KLang.Text.Encoding
import KLang.Token.Listing

/-!
# The command line

The command takes the path of one program file and executes it. Errors are reported on the error
stream and end with status `1`.

* `FileFault`: why a file cannot be read.
* `Settings`: the environment variables that the command looks at.
* `runFile`: the execution of a file, given its bytes or the reason why it cannot be read.
* `runCommand`: the whole command.
-/

namespace KLang

/-- Why a file cannot be read. -/
inductive FileFault where
  | missing
  | notDirectory
  | isDirectory
  | nameTooLong
  | nullInPath
  | other (reason : String)
  deriving DecidableEq, Repr

/-- The text of a file fault. -/
def FileFault.message : FileFault → String
  | .missing => "No such file or directory"
  | .notDirectory => "Not a directory"
  | .isDirectory => "Is a directory"
  | .nameTooLong => "File name too long"
  | .nullInPath => "embedded null byte"
  | .other reason => reason

/-- The values of the environment variables that the command looks at. -/
structure Settings where
  /-- Whether the variables and functions are listed after a program. -/
  dump : Option String
  /-- Whether the tokens are listed before a program. -/
  tokens : Option String
  /-- The plotting command. -/
  plotCommand : Option String
  deriving Repr

/-- Whether a switch is on: it is set, and neither to nothing nor to zero. -/
def enabled (setting : Option String) : Bool :=
  match setting with
  | none => false
  | some s => s != "" && s != "0"

/-- An error that the command does not report. -/
inductive Unreported where
  | numberTooLarge
  | nullInPath
  deriving DecidableEq, Repr

/-- The text of an error that is not reported. -/
def Unreported.message : Unreported → String
  | .numberTooLarge => LexFault.numberTooLarge.message
  | .nullInPath => FileFault.nullInPath.message

/-- How a command ended. -/
structure Exit where
  status : Nat
  output : Output
  /-- The error that ended it without a report. -/
  unreported : Option Unreported
  /-- The path that the program could not plot, because there is no file. -/
  noFile : Option String
  deriving Repr

/-- The report of an error. -/
def reportLine (location : Option Location) (message : String) : String :=
  located location ("error: " ++ message) ++ "\n"

/-- The report of one call in the trace of an error. -/
def traceLine (site : CallSite) : String :=
  let origin :=
    match site.location with
    | none => ""
    | some l => " called from " ++ l.text
  "...within " ++ site.function ++ origin ++ "\n"

/-- The report of a runtime error and its trace. -/
def RuntimeError.report (e : RuntimeError) : String :=
  reportLine e.location e.fault.message ++ String.join (e.trace.map traceLine)

namespace Output

/-- The output with more on the error stream. -/
def addError (o : Output) (text : String) : Output := { o with stderr := o.stderr ++ text }

end Output

namespace Exit

/-- An exit with a report on the error stream behind some output. -/
def reported (o : Output) (report : String) : Exit := ⟨1, o.addError report, none, none⟩

end Exit

/-- The exit after a text that is no program. -/
def SyntaxError.exit (e : SyntaxError) (o : Output) : Exit :=
  match e with
  | .parse e => .reported o (reportLine e.location e.fault.message)
  | .lexical e =>
    match e.fault with
    | .numberTooLarge => ⟨1, o, some .numberTooLarge, none⟩
    | fault => .reported o (reportLine e.location fault.message)

/-- The path of the file that was missing, if that was the fault. -/
def Fault.missingFile? : Fault → Option String
  | .refused (.noFile path) => some path
  | _ => none

/-- The exit after a program. -/
def Run.exit (settings : Settings) (run : Run) : Exit :=
  match run.result with
  | .failed e => { Exit.reported run.output e.report with noFile := e.fault.missingFile? }
  | .callLimit | .roundLimit => .reported run.output (reportLine none (limitMessage run.result))
  | .done | .returned _ =>
    if enabled settings.dump then ⟨0, run.output.addError run.interpreter.dump, none, none⟩
    else ⟨0, run.output, none, none⟩

namespace Exit

/-- The exit with something on the error stream before everything else. -/
def afterError (e : Exit) (text : String) : Exit :=
  { e with output := { e.output with stderr := text ++ e.output.stderr } }

end Exit

variable (limits : Limits) (settings : Settings) (world : World)

/-- Executes the program of tokens. -/
def runTokens (ts : Tokens) : Exit :=
  match Program.ofTokens ts with
  | .error e => e.exit ∅
  | .ok program => (Interpreter.run limits world ∅ program).exit settings

/--
Lists the tokens if that is wanted, then executes their program. A broken text is listed only.
-/
def listAndRun (ts : Tokens) : Exit :=
  if enabled settings.tokens then
    match ts.ending with
    | .broken e => ((SyntaxError.lexical e).exit ∅).afterError ts.listing
    | .complete _ => (runTokens limits settings world ts).afterError ts.listing
  else runTokens limits settings world ts

/-- Executes the program in the file of the given path. -/
def runFile (path : String) (contents : Except FileFault (List UInt8)) : Exit :=
  match contents with
  | .error .nullInPath => ⟨1, ∅, some .nullInPath, none⟩
  | .error f =>
    .reported ∅ (reportLine none ("cannot read " ++ quoted path ++ ": " ++ f.message))
  | .ok bytes =>
    match decodeUtf8 bytes with
    | .error f =>
      .reported ∅ (reportLine none ("cannot decode " ++ quoted path ++ ": " ++ f.message))
    | .ok cs =>
      listAndRun limits settings world (Tokens.ofChars (some ⟨some path, 1⟩) (unifyNewlines cs))

/-- The command with the given arguments. -/
def runCommand (read : String → Except FileFault (List UInt8)) (arguments : List String) : Exit :=
  match arguments with
  | [path] => runFile limits settings world path (read path)
  | _ => .reported ∅ "usage: kl <file.kl>\n"

end KLang
