import KLang.CommandLine

/-!
# The program

Reads the program file and the environment, runs the command and writes its output. No plotting
command is started from here, so a plot ends in the warning that the command was not found.
-/

namespace KLang

/-- The fault that the operating system describes by the given words. -/
def FileFault.ofDetails (details : String) : FileFault :=
  if details = "not a directory" then .notDirectory
  else if details = "name too long" then .nameTooLong
  else .other details.capitalize

/-- The reason that the operating system gives for a failed reading. -/
def FileFault.ofError (e : IO.Error) : FileFault :=
  match e with
  | .noFileOrDirectory .. => .missing
  | .inappropriateType _ _ details => .ofDetails details
  | .permissionDenied _ _ details => .ofDetails details
  | .invalidArgument _ _ details => .ofDetails details
  | e => .other (toString e)

/-- The bytes of a file, or why it cannot be read. -/
def readBytes (path : String) : IO (Except FileFault (List UInt8)) := do
  match ← (IO.FS.readBinFile path).toBaseIO with
  | .ok bytes => return .ok bytes.toList
  | .error e => return .error (.ofError e)

/-- The settings that the environment gives. -/
def readSettings : IO Settings :=
  return ⟨← IO.getEnv "KL_DUMP", ← IO.getEnv "KL_TOKENS", ← IO.getEnv "KL_GNUPLOT"⟩

/-- The exit of a command, where a program can plot the given files. A run that lacks a file which
is there begins again with it: a run is a function of the files it knows, so it comes to the same
point. -/
partial def exitWith (settings : Settings) (contents : Except FileFault (List UInt8))
    (arguments files : List String) : IO Exit := do
  let world : World := ⟨settings.plotCommand.getD "", false, files.contains⟩
  let exit := runCommand .standard settings world (fun _ => contents) arguments
  match exit.noFile with
  | none => return exit
  | some path =>
    match ← readBytes path with
    | .error _ => return exit
    | .ok _ => exitWith settings contents arguments (path :: files)

end KLang

open KLang in
/-- Runs the command with the given arguments. -/
def main (arguments : List String) : IO UInt32 := do
  let exit ← exitWith (← readSettings) (← readBytes (arguments.headD "")) arguments []
  (← IO.getStdout).putStr exit.output.stdout
  (← IO.getStderr).putStr exit.output.stderr
  match exit.unreported with
  | none => pure ()
  | some fault => (← IO.getStderr).putStrLn fault.message
  return UInt32.ofNat exit.status
