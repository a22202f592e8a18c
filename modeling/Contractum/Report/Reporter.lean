import Contractum.Report.Diagnosis
import Contractum.Report.Fault

/-!
# Reporters

A reporter prints problems and warnings, records the steps that are taken, and decides
what becomes of a fault. Problems of the user's input are reported and then over, unless
the reporter is fatal; defects of the program are reported as internal and go on.

What is printed is collected in order, as the host of the program writes it out. A report
whose message cannot be made ends in a defect of its own, which takes the place of what was
reported.
-/

namespace Contractum

open Text

/-- The settings of a reporter, the host it prints on, the steps recorded so far and what has
been printed. -/
structure Reporter where
  fatal : Bool
  verbose : Bool
  host : Host
  steps : List (String × String) := []
  printed : String := ""

/-- Operations on a reporter, whose changes stay also when they fail. -/
abbrev Reporting := EStateM Fault Reporter

namespace Reporter

/-- Prints a text. -/
def write (text : Styled) : Reporting Unit :=
  modify fun r => { r with printed := r.printed ++ text.render r.host.painting }

/-- Prints a line. -/
def writeLine (line : Styled) : Reporting Unit :=
  write (line ++ Styled.plain "\n")

/-- Records a step: the symbol of its rule and the term behind it. -/
def recordStep (rule expr : String) : Reporting Unit := do
  modify fun r => { r with steps := r.steps ++ [(rule, expr)] }
  if (← get).verbose then
    writeLine (Styled.colour .magenta (rule ++ " ") ++ Styled.plain expr)

/-- What a problem says, or the defect that keeps it from saying anything. -/
def worded (p : Problem) : Reporting String := do
  match p.message (← get).host with
  | .ok said => return said
  | .error d => throw (.defect d)

/-- Shows what a problem is about, if there is anything to show. -/
def writeDiagnosis (colour : Colour) (p : Problem) : Reporting Unit :=
  if !p.internal && !p.text.isEmpty && p.diagnosed then writeLine (p.diagnosis colour)
  else pure ()

/-- Prints a problem as a warning. -/
def warn (p : Problem) : Reporting Unit := do
  let said ← worded p
  writeLine (Styled.colour .magenta "warning: " ++ Styled.plain said)
  writeDiagnosis .magenta p

/-- Prints a problem, and ends the program if the reporter is fatal. -/
def report (p : Problem) : Reporting Unit := do
  let said ← worded p
  let origin := if p.internal then Styled.colour .red "[internal] " else []
  writeLine (origin ++ Styled.colour .red "error: " ++ Styled.plain said)
  writeDiagnosis .red p
  if (← get).fatal then throw (.exit "1")

/-- The problem that a defect is reported as. Its class and message become part of the
template. -/
def defectProblem (d : Defect) : Problem :=
  { Problem.sentence ("unknown error: '" ++ d.className ++ ": " ++ d.message ++ "'") with
    internal := true }

/-- Reports a fault, and lets it go on unless it is over with the report. -/
def handle (fault : Fault) : Reporting Unit := do
  match fault.settle (← get).host with
  | .problem p => report p
  | .defect d => do
    report (defectProblem d)
    throw (.defect d)
  | .tooDeep _ =>
    report (Problem.sentence "term is nested too deeply, maximum recursion depth exceeded")
  | .interrupt _ => report (Problem.sentence "keyboard interrupt")
  | .exit code => throw (.exit code)

/-- Runs an operation under the reporter. There is no result when a fault was over with
its report. -/
def guarded (act : Reporting α) : Reporting (Option α) := fun r =>
  match act r with
  | .ok a r => .ok (some a) r
  | .error fault r =>
    match handle fault r with
    | .ok _ r => .ok none r
    | .error fault r => .error fault r

end Reporter

end Contractum
