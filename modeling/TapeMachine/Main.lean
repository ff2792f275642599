import TapeMachine.CommandLine.Run

/-!
# The command line program

Gives the command line its arguments, its files and its standard input, and writes what it answers.
-/

namespace TapeMachine.CommandLine

def readBytes (path : String) : IO (Except FileError ByteArray) := do
  try
    return .ok (← IO.FS.readBinFile path)
  catch
    | .noFileOrDirectory .. => return .error .notFound
    | .inappropriateType .. => return .error .isDirectory
    | _ => return .error .notDirectory

/-- The only file that the arguments ask for, if they ask for one. -/
def neededFile (arguments : List String) : Option String :=
  (Options.ofArguments? Control.defaultSteps arguments).bind fun o =>
    if o.list || o.bundled.isSome then none else o.program

def readsInput (arguments : List String) : Bool :=
  (Options.ofArguments? Control.defaultSteps arguments).any fun o =>
    !o.list && o.bundled.isNone && o.program.isNone

end TapeMachine.CommandLine

open TapeMachine.CommandLine in
def main (arguments : List String) : IO UInt32 := do
  let file ← match neededFile arguments with
    | some path => readBytes path
    | none => pure (.error .notFound)
  let input ← if readsInput arguments then (← IO.getStdin).readBinToEnd else pure .empty
  let outcome := run ⟨arguments, input, fun _ => file⟩
  (← IO.getStdout).putStr outcome.standardOutput
  for line in outcome.errorLines do
    (← IO.getStderr).putStrLn line
  return outcome.code.toUInt32
