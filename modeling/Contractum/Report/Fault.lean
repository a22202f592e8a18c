import Contractum.Report.Problem
import Contractum.Term.Parser
import Contractum.Term.Redex

/-!
# Faults

Everything that can end an operation: a problem of the user's input, a defect of the
program, or a signal that is meant for the program as a whole.

Failed readings and refused steps are faults too, and their wording is that of the problem
they amount to.
-/

namespace Contractum

/-- The ways in which an operation can end without a result. -/
inductive Fault where
  /-- A problem of the user's input. -/
  | problem (p : Problem)
  /-- A defect of the program. -/
  | defect (d : Defect)
  /-- A term is nested too deeply for the machine. No operation here ends so, since the limit on
  nested calls is not modelled, but a reporter has to deal with it. -/
  | tooDeep (message : String)
  /-- The user interrupted the program. -/
  | interrupt (message : String)
  /-- The end of the program with an exit code. -/
  | exit (code : String)
deriving DecidableEq, Repr

namespace Fault

/-- What a fault amounts to on a host: a problem that has no message is the defect that keeps
it from having one. -/
def settle (host : Host) : Fault → Fault
  | problem p =>
    match p.message host with
    | .ok _ => problem p
    | .error d => defect d
  | fault => fault

/-- What a fault says on a host. -/
def message (host : Host) : Fault → String
  | problem p =>
    match p.message host with
    | .ok said => said
    | .error d => d.message
  | defect d => d.message
  | tooDeep message | interrupt message => message
  | exit code => code

/-- The fault of a stream of this text that hands out no token. -/
def ofStream (text : String) : StreamFault → Fault
  | .tooLong digits => defect (.unreadable digits)
  | .wrongKind kind got start stop => problem (.wrongKind [kind] got.label text start stop)

/-- The fault that a failed reading of a text ends in. -/
def ofParse (text : String) : ParseFault → Fault
  | .unknownChar kinds c start =>
    problem (.unknownChar (kinds.map Kind.label) (String.singleton c) text start)
  | .unexpected kinds got start stop =>
    problem (.expected (kinds.map Kind.label) got.label text start stop)
  | .freeVariable name start stop => problem (.freeVariable name text start stop)
  | .stream fault => ofStream text fault
  | .tooDeep => tooDeep ""

/-- The fault that a refused step ends in. -/
def ofStep : StepFault → Fault
  | .notRedex form => problem (.notRedex form)
  | .divisionByZero dividend => problem (.divisionByZero dividend)

end Fault

end Contractum
