import Inversion.CommandLine.Execution

/-!
The program. It reads the files that a command names, has the command carried out, writes the report
if there is one, and prints the result; log events go to the standard error.
-/

namespace Inversion

/-- The text of a file, if it can be read. -/
def readIfPresent (path : String) : IO (Option String) := do
  try
    return some (← IO.FS.readFile path)
  catch _ => return none

/-- Writes a file; whether it could be written. -/
def writeIfPossible (path text : String) : IO Bool := do
  try
    IO.FS.writeFile path text
    return true
  catch _ => return false

/-- Writes the report that a command would write; whether that went well. -/
def writeReport (outcome : Except CommandError Printout) : IO Bool := do
  match outcome with
  | .ok ⟨_, some (path, text)⟩ => writeIfPossible path text
  | _ => return true

/-- Carries out a command in the file system. -/
def Command.perform (c : Command) : IO UInt32 := do
  let texts ← c.reads.mapM fun path => return (path, ← readIfPresent path)
  let files (accepted : Bool) : Files := ⟨fun path => (texts.lookup path).join, fun _ => accepted⟩
  let accepted ← writeReport (c.execute (files true) .info).outcome
  let done := c.execute (files accepted) .info
  for e in Event.upTo .info done.events do
    IO.eprintln e.text
  match done.outcome with
  | .ok printout =>
    IO.print printout.text
    return 0
  | .error e =>
    IO.eprintln s!"Error: {e.message}"
    return 1

end Inversion

open Inversion in
/-- Runs the command that the arguments stand for. -/
def main (args : List String) : IO UInt32 := do
  match CommandLine.parse? args with
  | some command => command.perform
  | none =>
    IO.eprintln "usage: decode INPUT [--json]"
    IO.eprintln "       rewrite INPUT [--rules FILE] [--config FILE] [--emit FILE]"
    IO.eprintln "       run INPUT [--gravity normal|inverted] [--arg VALUE]... [--rules FILE] [--patch] [--config FILE]"
    return 2
