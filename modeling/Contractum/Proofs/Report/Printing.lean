import Contractum.Proofs.Report.Messages
import Contractum.Proofs.Results
import Contractum.Report.Reporter

/-!
# What reports change

A reporter that is not fatal gets through every report of a problem that can be said: it
prints, and nothing else about it changes. The same holds of warnings, and a record adds to
the steps besides. What is printed each time is a text of its own.
-/

namespace Contractum

open Text

/-- A line as it is printed. -/
def lineText (painting : Painting) (line : Styled) : String :=
  line.render painting ++ "\n"

/-- The lines that show what a problem is about, if there is anything to show. -/
def Problem.diagnosisText (painting : Painting) (colour : Colour) (p : Problem) : String :=
  if !p.internal && !p.text.isEmpty && p.diagnosed then lineText painting (p.diagnosis colour)
  else ""

@[simp] theorem Problem.diagnosisText_undiagnosed (painting : Painting) (colour : Colour)
    (p : Problem) : p.undiagnosed.diagnosisText painting colour = "" := by
  rw [diagnosisText, undiagnosed, Bool.and_false, if_neg Bool.false_ne_true]

/-- The lines of a warning that says this. -/
def Problem.warningText (painting : Painting) (p : Problem) (said : String) : String :=
  lineText painting (Styled.colour .magenta "warning: " ++ Styled.plain said) ++
    p.diagnosisText painting .magenta

/-- The lines of a report that says this. -/
def Problem.reportText (painting : Painting) (p : Problem) (said : String) : String :=
  lineText painting ((if p.internal then Styled.colour .red "[internal] " else []) ++
    Styled.colour .red "error: " ++ Styled.plain said) ++ p.diagnosisText painting .red

/-- What the record of a step prints: its rule and the term behind it, if the reporter is
verbose. -/
def recordText (painting : Painting) (verbose : Bool) (rule expr : String) : String :=
  if verbose then
    lineText painting (Styled.colour .magenta (rule ++ " ") ++ Styled.plain expr)
  else ""

namespace Reporter

variable {r : Reporter} {act : Reporting Unit} {p : Problem} {said more : String}

/-- The reporter after more was printed. -/
def printing (r : Reporter) (more : String) : Reporter :=
  { r with printed := r.printed ++ more }

theorem printing_printing (more further : String) :
    (r.printing more).printing further = r.printing (more ++ further) := by
  simp only [printing, String.append_assoc]

theorem printing_empty : r.printing "" = r := by
  simp only [printing, String.append_empty]

/-- From this reporter on, an operation succeeds and prints this text, and nothing else is
changed. -/
def Prints (r : Reporter) (act : Reporting Unit) (more : String) : Prop :=
  act r = .ok () (r.printing more)

/-- From this reporter on, an operation succeeds and changes nothing but what was printed. -/
def PrintsFrom (r : Reporter) (act : Reporting Unit) : Prop :=
  ∃ more, act r = .ok () (r.printing more)

theorem prints_pure (r : Reporter) : Prints r (pure ()) "" := by
  rw [Prints, printing_empty]
  rfl

theorem prints_writeLine (line : Styled) (r : Reporter) :
    Prints r (writeLine line) (lineText r.host.painting line) := by
  have hline : lineText r.host.painting line =
      (line ++ Styled.plain "\n").render r.host.painting := by
    rw [lineText, Styled.render_append, Styled.render_plain]
  rw [hline]
  rfl

theorem Prints.bind {next : Unit → Reporting Unit} {further : String} (hact : Prints r act more)
    (hnext : Prints (r.printing more) (next ()) further) :
    Prints r (act >>= next) (more ++ further) := by
  rw [Prints, bind_of_ok hact, hnext, printing_printing]

theorem prints_writeDiagnosis (colour : Colour) (p : Problem) (r : Reporter) :
    Prints r (writeDiagnosis colour p) (p.diagnosisText r.host.painting colour) := by
  rw [writeDiagnosis, Problem.diagnosisText]
  split
  · exact prints_writeLine _ r
  · exact prints_pure r

theorem worded_run (h : p.message r.host = .ok said) : worded p r = .ok said r := by
  rw [worded, get_bind, h]
  rfl

/-- A warning that can be said is printed. -/
theorem prints_warn (h : p.message r.host = .ok said) :
    Prints r (warn p) (p.warningText r.host.painting said) := by
  rw [Prints, warn, bind_of_ok (worded_run h)]
  exact (prints_writeLine _ r).bind (prints_writeDiagnosis .magenta p _)

/-- A problem that can be said is reported. A fatal reporter ends the program behind its
report, and no other one does. -/
theorem report_run (h : p.message r.host = .ok said) :
    report p r =
      if r.fatal then .error (.exit "1") (r.printing (p.reportText r.host.painting said))
      else .ok () (r.printing (p.reportText r.host.painting said)) := by
  rw [report, bind_of_ok (worded_run h), bind_of_ok (prints_writeLine _ r),
    bind_of_ok (prints_writeDiagnosis .red p _), get_bind, printing_printing]
  change (if r.fatal then throw (.exit "1") else pure () : Reporting Unit) _ = _
  split <;> rfl

theorem report_of_not_fatal (h : p.message r.host = .ok said) (hfatal : r.fatal = false) :
    report p r = .ok () (r.printing (p.reportText r.host.painting said)) := by
  rw [report_run h, hfatal]
  rfl

theorem printsFrom_report (h : p.Sayable) (hfatal : r.fatal = false) :
    PrintsFrom r (report p) := by
  obtain ⟨said, hsaid⟩ := h r.host
  exact ⟨p.reportText r.host.painting said, report_of_not_fatal hsaid hfatal⟩

/-- A recorded step is printed at most, so a record always succeeds. -/
theorem recordStep_run (rule expr : String) (r : Reporter) :
    recordStep rule expr r = .ok () ({ r with steps := r.steps ++ [(rule, expr)] }.printing
      (recordText r.host.painting r.verbose rule expr)) := by
  let recorded : Reporter := { r with steps := r.steps ++ [(rule, expr)] }
  change (if r.verbose then writeLine _ else pure () : Reporting Unit) recorded = _
  rw [recordText]
  split
  · exact prints_writeLine _ recorded
  · exact prints_pure recorded

end Reporter

end Contractum
