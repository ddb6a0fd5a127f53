import SchemaDdl.CommandLine

/-!
# The program

Reads the input file, runs the command line, and prints or writes what comes out.
-/

namespace SchemaDdl.CommandLine

def usage : String :=
  "usage: [-v] (generate | parse | check) INPUT [--strict] [--no-implicit-id] [-o FILE]"

def readText (path : String) : IO (Except String String) := do
  try
    return .ok (← IO.FS.readFile path)
  catch e =>
    return .error (toString e)

def writeText (o : Outcome) : IO Outcome := do
  match o.file with
  | none => return o
  | some (path, text) =>
    try
      IO.FS.writeFile path text
      return o
    catch e =>
      return .writeFailed path (toString e)

def runProgram (args : List String) : IO UInt32 := do
  match invocation? args with
  | none =>
    IO.eprintln usage
    return 2
  | some inv =>
    let outcome ← writeText (inv.run .positional (← readText inv.input))
    IO.print outcome.stdout
    for cause in outcome.causes do
      IO.eprintln cause.message
    return outcome.exitCode.toUInt32

end SchemaDdl.CommandLine

def main (args : List String) : IO UInt32 :=
  SchemaDdl.CommandLine.runProgram args
