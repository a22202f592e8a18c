import Contractum.Report.Reporter
import Contractum.Term.Parser
import Contractum.Term.Printer
import Contractum.Term.Redex

/-!
# Sessions

A session holds the term that is being reduced, the text it was read from and the terms
before each step, and reports what happens. It changes only when a text is submitted, a
redex is reduced or a step is undone.

A refused operation leaves term, text and past as they were. A step whose result is too
long to be written is taken all the same: only its record is missing.
-/

namespace Contractum

open Text

/-- A term under work: the text it was read from, and the terms before each step, the last
one first. -/
structure Work where
  text : String
  term : Term
  past : List Term
deriving DecidableEq, Repr

/-- The work of a session, once there is any, and the reporter it uses. -/
structure Session where
  work : Option Work
  reporter : Reporter

/-- Operations on a session, whose changes stay also when they fail. -/
abbrev Action := EStateM Fault Session

namespace Session

/-- A session before any text was submitted. -/
def start (reporter : Reporter) : Session :=
  ⟨none, reporter⟩

/-- The terms before each step, the oldest first. -/
def history (s : Session) : List Term :=
  match s.work with
  | some work => work.past.reverse
  | none => []

/-- Lets the reporter act. -/
def tell (act : Reporting α) : Action α := fun s =>
  match act s.reporter with
  | .ok a reporter => .ok a { s with reporter }
  | .error fault reporter => .error fault { s with reporter }

/-- Runs an operation under the reporter. There is no result when a fault was over with its
report. -/
def guarded (act : Action α) : Action (Option α) := fun s =>
  match act s with
  | .ok a s => .ok (some a) s
  | .error fault s =>
    match Reporter.handle fault s.reporter with
    | .ok _ reporter => .ok none { s with reporter }
    | .error fault reporter => .error fault { s with reporter }

/-- Refuses an operation. -/
def refuse (p : Problem) : Action α :=
  throw (.problem p.undiagnosed)

/-- The work of the session, refused before a text was submitted. -/
def current : Action Work := do
  match (← get).work with
  | some work => return work
  | none => refuse (.sentence "no term has been entered yet")

/-- A written form of a term. -/
def written (form : Term → String) (t : Term) : Action String :=
  match t.written? form with
  | some text => pure text
  | none => throw (.defect .unwritable)

/-- The text of an integer. -/
def writtenInteger (n : Int) : Action String :=
  if isWritable n then pure (integerText n) else throw (.defect .unwritable)

/-- Makes the term of a text the current one and forgets the former term and its past.
Warns if there is nothing to reduce. -/
def submit (text : String) : Action Term := do
  match Term.parse text with
  | .error fault => throw (.ofParse text fault)
  | .ok t =>
    modify fun s => { s with work := some ⟨text, t, []⟩ }
    if t.redexes.isEmpty then
      tell (Reporter.warn
        (Problem.general ("'" ++ Template.hole ++ "' has no redexes") [text]).undiagnosed)
    return t

/-- The redexes of the current term, numbered from zero by their order. -/
def redexes : Action (List (Path × RedexKind)) := do
  return (← current).term.redexes

/-- The entry of a list that a number counted from zero picks. -/
def pick? (xs : List α) (index : Int) : Option α :=
  if 0 ≤ index then xs[index.toNat]? else none

/-- Reduces the redex of a number, and records the step. -/
def reduce (index : Int) : Action RedexKind := do
  let work ← current
  match pick? work.term.redexes index with
  | none => do
    let said ← writtenInteger index
    refuse (.general ("no redex numbered '" ++ Template.hole ++ "'") [said])
  | some (path, kind) =>
    match work.term.contractAt path with
    | .error fault => throw (.ofStep fault)
    | .ok t =>
      modify fun s => { s with work := some { work with term := t, past := work.term :: work.past } }
      let text ← written Term.render t
      tell (Reporter.recordStep kind.rule text)
      return kind

/-- Goes back to the term before the last step. -/
def undo : Action Term := do
  match (← get).work with
  | some ⟨text, _, t :: past⟩ =>
    modify fun s => { s with work := some ⟨text, t, past⟩ }
    return t
  | _ => refuse (.sentence "nothing to undo")

/-- The source form of the current term, empty before a text was submitted. -/
def sourceText : Action String := do
  match (← get).work with
  | some work => written Term.render work.term
  | none => return ""

/-- A kind of redex in a column of ten characters. -/
def kindColumn (kind : RedexKind) : String :=
  kind.label ++ copies (10 - kind.label.length) ' '

/-- Prints a redex of a term behind its number, its kind in a style. -/
def showRedex (column : Style) (t : Term) (index : Nat) (path : Path)
    (kind : RedexKind) : Action Unit := do
  let text ← written Term.render ((t.get? path).getD t)
  tell (Reporter.writeLine (Styled.plain ("  [" ++ naturalText index ++ "] ") ++
    [⟨column, kindColumn kind⟩] ++ Styled.plain (" " ++ text)))

/-- Prints the current term, its tree if asked, and its redexes with their numbers. -/
def showTerm (column : Style) (tree : Bool) : Action Unit := do
  match (← get).work with
  | none => throw (.defect .noTerm)
  | some work =>
    let text ← written Term.render work.term
    tell (Reporter.writeLine (Styled.plain text))
    if tree then
      let outline ← written Term.outline work.term
      tell (Reporter.writeLine (Styled.plain outline))
    work.term.redexes.zipIdx.forM fun ((path, kind), index) =>
      showRedex column work.term index path kind

end Session

end Contractum
