import Contractum.Command.Options
import Contractum.Shell

/-!
# Runs of the program

A run with a term submits it, takes the steps asked for and prints the result; whatever
goes wrong ends the run. A run without a term is a shell that takes the lines of its input.
-/

namespace Contractum

open Text

/-- What a run prints and how it ends. -/
structure Outcome where
  out : String
  err : String
  result : Except Fault Unit

namespace Options

/-- The reporter of a run, which ends the run at the first report if a term was given. -/
def reporter (options : Options) (host : Host) : Reporter where
  fatal := options.term.isSome
  verbose := options.trace
  host := host

/-- The run on one term: submits it, takes the steps and prints what is left. -/
def reduceTerm (options : Options) (text : String) : Action Unit := do
  discard (Session.submit text)
  options.steps.forM fun index => discard (Session.reduce index)
  Session.showTerm .plain options.tree

/-- Runs the shell on the lines of an input. -/
def runShell (input : String) : Action Unit := do
  Shell.printLine Shell.intro
  Shell.loop ((Shell.linesOf input.toList).map String.ofList)

/-- The run that the options ask for. -/
def action (options : Options) (input : String) : Action Unit :=
  match options.term with
  | some text => options.reduceTerm text
  | none => runShell input

end Options

namespace Outcome

/-- The outcome of a run that starts nothing. -/
def ofExit : OptionsExit → Outcome
  | .help => ⟨Options.helpText, "", .error (.exit "0")⟩
  | .refused message =>
    ⟨"", Options.usage ++ "rewriter: error: " ++ message ++ "\n", .error (.exit "2")⟩

/-- The outcome of a run with these options on this input, on a host. -/
def ofOptions (options : Options) (host : Host) (input : String) : Outcome :=
  match Session.guarded (options.action input) (Session.start (options.reporter host)) with
  | .ok _ s => ⟨s.reporter.printed, "", .ok ()⟩
  | .error fault s => ⟨s.reporter.printed, "", .error fault⟩

/-- The outcome of a command line on an input, on a host. -/
def ofCommandLine (args : List String) (host : Host) (input : String) : Outcome :=
  match Options.ofArguments args with
  | .ok options => ofOptions options host input
  | .error exit => ofExit exit

end Outcome

end Contractum
