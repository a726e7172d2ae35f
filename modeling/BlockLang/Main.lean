import BlockLang.CommandLine.Run

/-!
# The program

Runs the command line on the files of the machine.
-/

open BlockLang.CommandLine
open BlockLang.File

/-- What a path of the machine leads to. -/
def readPath (path : String) : IO FileContent := do
  try
    return .bytes (← IO.FS.readBinFile path).toList
  catch e =>
    match e with
    | .noFileOrDirectory .. => return .missing
    | .inappropriateType .. => return .directory
    | e => throw e

/-- The input that a command line asks to read, if it asks for one. -/
def inputOf? (args : List String) : Option String :=
  match parseArguments args with
  | .ok (.run options) => some options.input
  | _ => none

/-- Runs the program with the arguments of the command line. -/
def main (args : List String) : IO UInt32 := do
  let content ← match inputOf? args with
    | some path => if holdsNull path then pure .missing else readPath path
    | none => pure .missing
  match run args fun _ => content with
  | .ok output =>
    IO.print output.stdout
    IO.eprint output.stderr
    return output.exit.toUInt32
  | .error e =>
    IO.eprintln e.message
    return 1
