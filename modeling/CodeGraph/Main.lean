import CodeGraph.CommandLine.Report
import CodeGraph.Json.Reader
import CodeGraph.Syntax.Grammar

/-!
# The program

Reads a snapshot of a file tree from standard input, runs the command given by the arguments on it
and prints a report of what the command did.
-/

namespace CodeGraph

/-- All that is left on a stream. -/
partial def readAll (input : IO.FS.Stream) (done : String) : IO String := do
  let line ← input.getLine
  if line.isEmpty then return done
  readAll input (done ++ line)

/-- The environment that a snapshot gives. -/
def snapshotEnvironment (j : Json) : Environment :=
  match j.member? "env" with
  | some (.object members) => members.filterMap fun
      | (name, .string value) => some (name, value)
      | _ => none
  | _ => []

end CodeGraph

open CodeGraph

/-- Run a command on a snapshot. Sources are read with the grammars of `parseText`. -/
def main (args : List String) : IO UInt32 := do
  let input ← readAll (← IO.getStdin) ""
  match Json.parse input with
  | none =>
    IO.eprintln "no snapshot on standard input"
    return 2
  | some j =>
    match Snapshot.disk j with
    | .faulty defects =>
      IO.eprintln (Json.ofList Response.defectJson defects).compact
      return 2
    | .valid disk =>
      match runCommandLine parseText (Session.start disk) (snapshotEnvironment j) args with
      | .exited code => return UInt32.ofNat code
      | .ran ending log session =>
        let (code, head) : Nat × List (String × Json) := match ending with
          | .ok code => (code, [("exit", .int code)])
          | .error f => (1, [("failure", .string f.message)])
        IO.println (Json.object (head ++ Report.effects disk log session)).indented
        return UInt32.ofNat code
