/-
# The command line program

Files and their syntax trees come as one snapshot on standard input, because reading a directory and
parsing a source text are the work of other programs. The command is run on the snapshot; what it
prints is printed, and the files it changed are written. Texts about the program itself are not held
here, so nothing is printed where one is asked for.
-/

import CachedCalls.CommandLine
import CachedCalls.Files.Snapshot

namespace CachedCalls

/-- All text up to the end of a stream. -/
partial def readAll (stream : IO.FS.Stream) (before : String) : IO String := do
  let line ← stream.getLine
  if line.isEmpty then return before else readAll stream (before ++ line)

/-- The store and the parser that a snapshot describes. -/
def readSnapshot? (text : String) : Option (Store × Parser) := do
  let snapshot ← (Json.parse text).toOption
  let cwd ← snapshot.textField? "cwd"
  return (← Store.ofSnapshot? cwd snapshot, ← Parser.ofSnapshot? snapshot)

/-- Show how a run ended and write the files it changed. -/
def finish (before : Store) (outcome : CommandLine.Outcome) : IO UInt32 := do
  IO.print outcome.output
  if let some complaint := outcome.complaint then IO.eprintln complaint
  for (path, text) in outcome.store.changesSince before do
    IO.FS.writeFile path text
  return outcome.status.toUInt32

end CachedCalls

/-- Run the command that the arguments ask for. -/
def main (arguments : List String) : IO UInt32 := do
  match CachedCalls.readSnapshot? (← CachedCalls.readAll (← IO.getStdin) "") with
  | some (store, parser) =>
    CachedCalls.finish store (CachedCalls.CommandLine.run store parser arguments)
  | none =>
    IO.eprintln "Error: standard input holds no snapshot"
    return 1
