import Quadlet.CommandLine
/-!
# The program

Reads the files that the arguments name, and prints what `CommandLine.execute` makes of them.
-/
namespace Quadlet

def usage : String := "usage: [--tables DIR] [--format json|text] [--json-input] [FILE]"

/-- The contents of a file, if it can be read. -/
def readFile (path : String) : IO (Option Bytes) := do
  try
    let contents ← IO.FS.readBinFile path
    return some contents.data.toList
  catch _ => return none

end Quadlet

open Quadlet in
def main (args : List String) : IO UInt32 := do
  match CommandLine.parse args with
  | none =>
    IO.eprintln usage
    return 2
  | some options =>
    let stdin ← if options.file.isNone then (← IO.getStdin).readBinToEnd else pure .empty
    let contents ← options.paths.mapM (fun path => do return (path, ← readFile path))
    let outcome := CommandLine.execute options stdin.data.toList (fun path => (contents.lookup path).join)
    IO.print outcome.output
    if outcome.exitCode != 0 then IO.eprintln outcome.complaint
    return outcome.exitCode.toUInt32
