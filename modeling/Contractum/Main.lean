import Contractum.Command.Run

/-!
# The program

The command line and the terminal: arguments and lines come in, texts and an exit code go
out. What is printed is decided elsewhere, and emphasis is shown on terminals only.
-/

namespace Contractum.Program

/-- Prints what a run has printed and what it says of its failure. -/
def emit (host : Host) (outcome : Outcome) : IO UInt32 := do
  IO.print outcome.out
  IO.eprint outcome.err
  match outcome.result with
  | .ok _ => return 0
  | .error (.exit code) => return (code.toNat?.getD 1).toUInt32
  | .error (.defect d) => IO.eprintln (d.className ++ ": " ++ d.message); return 1
  | .error fault => IO.eprintln (fault.message host); return 1

/-- Prints what a session has printed since the last time, and forgets it. -/
def flush (s : Session) : IO Session := do
  IO.print s.reporter.printed
  (← IO.getStdout).flush
  return { s with reporter := { s.reporter with printed := "" } }

/-- One turn of the shell, under the reporter of the session. -/
def turn (line : String) : Action (Option Reply) :=
  Session.guarded (Shell.onLine line)

/-- The shell on the lines of a stream, each answered before the next is read. -/
partial def interact (host : Host) (input : IO.FS.Stream) (s : Session) : IO UInt32 := do
  IO.print Shell.prompt
  (← IO.getStdout).flush
  let line ← input.getLine
  let line := if line.isEmpty then Command.endOfInput.name else (line.dropSuffix "\n").toString
  match turn line s with
  | .ok (some .done) s | .ok (some .blank) s => interact host input (← flush s)
  | .ok _ s => discard (flush s); return 0
  | .error fault s => emit host ⟨s.reporter.printed, "", .error fault⟩

end Contractum.Program

open Contractum in
/-- Runs the command line. -/
def main (args : List String) : IO UInt32 := do
  let host := Host.ofEmphasis (← (← IO.getStdout).isTty)
  match Options.ofArguments args with
  | .error exit => Program.emit host (Outcome.ofExit exit)
  | .ok options =>
    if options.term.isSome then Program.emit host (Outcome.ofOptions options host "")
    else
      IO.println Shell.intro
      Program.interact host (← IO.getStdin) (Session.start (options.reporter host))
