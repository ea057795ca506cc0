import HeaderRules.Command.Run

/-!
# The program

Reads the arguments and the file that they name, runs the command and prints what it has to say.
-/

namespace HeaderRules

/-- The content of a file, if it can be read. -/
def readText (path : String) : IO (Option String) := do
  try
    return some (← IO.FS.readFile path)
  catch _ =>
    return none

/-- The exit code for an error. -/
def exitCode : CommandError → UInt32
  | .usage => 2
  | _ => 1

end HeaderRules

open HeaderRules

/-- Runs the command that the arguments stand for. -/
def main (args : List String) : IO UInt32 := do
  let result ←
    match Command.ofArguments? args with
    | none => pure (.error .usage)
    | some command =>
      let file ←
        match command.path? with
        | some path => readText path
        | none => pure none
      pure (command.output file)
  match result with
  | .ok text =>
    (← IO.getStdout).putStr text
    return 0
  | .error e =>
    (← IO.getStderr).putStrLn ("Error: " ++ e.message)
    return exitCode e
