import CatalogAccess.CommandLine.Arguments

/-!
# The program

Reads the files that the arguments name, runs the command and prints its output. The exit code is 1
for a failure and 2 for misused arguments.
-/

namespace CatalogAccess

/-- The content of a file; nothing when it cannot be read. -/
def fileContent (path : String) : IO (Option String) := do
  try
    return some (← IO.FS.readFile path)
  catch _ => return none

/-- A random number from which fresh names are drawn. -/
def randomDraw : IO Nat := do
  let bytes ← IO.getRandomBytes 15
  return bytes.toList.foldl (fun n b => n * 256 + b.toNat) 0

end CatalogAccess

open CatalogAccess in
/-- Runs the command that the arguments give. -/
def main (arguments : List String) : IO UInt32 := do
  match Directive.ofArguments? arguments with
  | none =>
    IO.eprintln Directive.usage
    return 2
  | some .help =>
    IO.println Directive.usage
    return 0
  | some (.invoke invocation) =>
    let invocation ← invocation.mapFiles fileContent
    match invocation.run (← randomDraw) with
    | .ok output =>
      IO.println output.pretty
      return 0
    | .error e =>
      IO.eprintln e.message
      return 1
