/-
  Prototalk.Main
  ────────────────────────────────
  **THE PROGRAM.**

  Reads the file that a command asks for, executes the command, and writes
  what it leaves.
-/
import Prototalk.Command
import Prototalk.Host

namespace Prototalk

/-- The bytes of a file, if it is there. -/
def readContent (path : String) : IO FileContent := do
  try
    let bytes ← IO.FS.readBinFile path
    return .bytes bytes.toList
  catch _ => return .missing

end Prototalk

open Prototalk

/-- Run the command that the arguments ask for. -/
def main (args : List String) : IO UInt32 := do
  let command := Command.ofArgs args
  let file ← match command.path? with
    | some path => readContent path
    | none => pure .missing
  let outcome := command.execute Host.patience file
  IO.print outcome.stdout
  IO.eprint outcome.stderr
  return outcome.code
