import Contractum.Proofs.Report.Printing
import Contractum.Session

/-!
# How calls end

Each call on a session ends in one of a few ways, and each way is described here with the
result and with the whole session behind it. Submitting and undoing change nothing when they
are refused. A reduction has one way to fail in which it has changed something: the step is
taken, but its result is too long to be written, and so the step is not recorded.
-/

namespace Contractum

open Text

/-- The work after a step to a term. -/
def Work.stepped (work : Work) (t : Term) : Work :=
  { work with term := t, past := work.term :: work.past }

namespace Session

variable {s s' : Session} {text : String} {t : Term} {index : Int} {work : Work} {kind : RedexKind}

/-- The session after its reporter printed more. -/
def printing (s : Session) (more : String) : Session :=
  { s with reporter := s.reporter.printing more }

theorem tell_run {α : Type} {act : Reporting α} {a : α} {reporter : Reporter}
    (h : act s.reporter = .ok a reporter) : tell act s = .ok a { s with reporter } := by
  rw [tell, h]

theorem guarded_of_ok {α : Type} {act : Action α} {a : α} (h : act s = .ok a s') :
    guarded act s = .ok (some a) s' := by
  rw [guarded, h]

/-- A fault may be over with its report. -/
theorem guarded_of_handled {α : Type} {act : Action α} {fault : Fault} {reporter : Reporter}
    (h : act s = .error fault s') (hhandle : Reporter.handle fault s'.reporter = .ok () reporter) :
    guarded act s = .ok none { s' with reporter } := by
  rw [guarded, h]
  simp only [hhandle]

/-- The fault that goes on behind a report may be another one. -/
theorem guarded_of_unhandled {α : Type} {act : Action α} {fault fault' : Fault}
    {reporter : Reporter} (h : act s = .error fault s')
    (hhandle : Reporter.handle fault s'.reporter = .error fault' reporter) :
    guarded act s = .error fault' { s' with reporter } := by
  rw [guarded, h]
  simp only [hhandle]

theorem current_of_some (h : s.work = some work) : current s = .ok work s := by
  obtain ⟨current, reporter⟩ := s
  obtain rfl : current = some work := h
  rfl

theorem current_of_none (h : s.work = none) :
    current s =
      .error (.problem (Problem.sentence "no term has been entered yet").undiagnosed) s := by
  obtain ⟨current, reporter⟩ := s
  obtain rfl : current = none := h
  rfl

theorem submit_of_error {fault : ParseFault} (h : Term.parse text = .error fault) (s : Session) :
    submit text s = .error (.ofParse text fault) s := by
  rw [submit, h]
  rfl

/-- The warning about a term that was submitted: that it has no redexes, if it has none. -/
def noticeText (painting : Painting) (text : String) (t : Term) : String :=
  if t.redexes.isEmpty then
    lineText painting (Styled.colour .magenta "warning: " ++
      Styled.plain ("'" ++ painting.bold text ++ "' has no redexes"))
  else ""

/-- The warning that a text has no redexes can always be given. -/
theorem prints_notice (text : String) (r : Reporter) :
    Reporter.Prints r (Reporter.warn
        (Problem.general ("'" ++ Template.hole ++ "' has no redexes") [text]).undiagnosed)
      (lineText r.host.painting (Styled.colour .magenta "warning: " ++
        Styled.plain ("'" ++ r.host.painting.bold text ++ "' has no redexes"))) := by
  have hsaid : (Problem.general ("'" ++ Template.hole ++ "' has no redexes")
      [text]).undiagnosed.message r.host =
        .ok ("'" ++ r.host.painting.bold text ++ "' has no redexes") :=
    Problem.message_general (by decide) (by decide) r.host
  have hwarn := Reporter.prints_warn hsaid
  rwa [Problem.warningText, Problem.diagnosisText_undiagnosed, String.append_empty] at hwarn

/-- The session after a text was submitted that is this term. -/
def entered (s : Session) (text : String) (t : Term) : Session :=
  printing { s with work := some ⟨text, t, []⟩ } (noticeText s.reporter.host.painting text t)

@[simp] theorem work_entered (s : Session) (text : String) (t : Term) :
    (s.entered text t).work = some ⟨text, t, []⟩ := rfl

/-- A text that is a term is always taken. -/
theorem submit_run (h : Term.parse text = .ok t) (s : Session) :
    submit text s = .ok t (s.entered text t) := by
  rw [submit, h, entered, noticeText]
  change (do
    if t.redexes.isEmpty then
      tell (Reporter.warn
        (Problem.general ("'" ++ Template.hole ++ "' has no redexes") [text]).undiagnosed)
    return t : Action Term) { s with work := some ⟨text, t, []⟩ } = _
  split
  · exact bind_of_ok (tell_run (prints_notice text s.reporter))
  · rw [printing, Reporter.printing_empty]
    rfl

theorem undo_of_past {term : Term} {past : List Term}
    (h : s.work = some ⟨text, term, t :: past⟩) :
    undo s = .ok t { s with work := some ⟨text, t, past⟩ } := by
  obtain ⟨work, reporter⟩ := s
  obtain rfl : work = some ⟨text, term, t :: past⟩ := h
  rfl

theorem undo_of_no_past (h : ∀ work, s.work = some work → work.past = []) :
    undo s = .error (.problem (Problem.sentence "nothing to undo").undiagnosed) s := by
  obtain ⟨work, reporter⟩ := s
  cases work with
  | none => rfl
  | some work =>
      obtain ⟨text, term, past⟩ := work
      obtain rfl : past = [] := h _ rfl
      rfl

theorem mem_of_pick? {α : Type} {xs : List α} {index : Int} {x : α} (h : pick? xs index = some x) :
    x ∈ xs := by
  unfold pick? at h
  split at h
  · exact List.mem_of_getElem? h
  · contradiction

/-- No number below zero picks an entry. -/
theorem nonneg_of_pick? {α : Type} {xs : List α} {index : Int} {x : α}
    (h : pick? xs index = some x) : 0 ≤ index := by
  unfold pick? at h
  split at h
  · assumption
  · cases h

/-- Reducing by a number comes to a redex of this kind in the current term, and contracting it
has this outcome. -/
def Attempts (s : Session) (index : Int) (work : Work) (kind : RedexKind)
    (outcome : Except StepFault Term) : Prop :=
  s.work = some work ∧ ∃ path, pick? work.term.redexes index = some (path, kind) ∧
    work.term.contractAt path = outcome

/-- The ways in which a reduction ends. -/
inductive Reduction (s : Session) (index : Int) : EStateM.Result Fault Session RedexKind → Prop
  | noTerm (current : s.work = none) :
      Reduction s index
        (.error (.problem (Problem.sentence "no term has been entered yet").undiagnosed) s)
  | noRedex {work : Work} (current : s.work = some work)
      (unpicked : pick? work.term.redexes index = none) (written : isWritable index = true) :
      Reduction s index (.error (.problem (Problem.general
        ("no redex numbered '" ++ Template.hole ++ "'") [integerText index]).undiagnosed) s)
  | noNumber {work : Work} (current : s.work = some work)
      (unpicked : pick? work.term.redexes index = none) (long : isWritable index = false) :
      Reduction s index (.error (.defect .unwritable) s)
  | refused {work : Work} {kind : RedexKind} {fault : StepFault}
      (attempt : Attempts s index work kind (.error fault)) :
      Reduction s index (.error (.ofStep fault) s)
  | unrecorded {work : Work} {kind : RedexKind} {t : Term}
      (attempt : Attempts s index work kind (.ok t)) (long : t.isWritable = false) :
      Reduction s index (.error (.defect .unwritable) { s with work := some (work.stepped t) })
  | taken {work : Work} {kind : RedexKind} {t : Term}
      (attempt : Attempts s index work kind (.ok t)) (written : t.isWritable = true)
      (more : String) :
      Reduction s index (.ok kind (printing { s with
        work := some (work.stepped t)
        reporter.steps := s.reporter.steps ++ [(kind.rule, t.render)] } more))

theorem written_run (form : Term → String) (h : t.isWritable = true) (s : Session) :
    written form t s = .ok (form t) s := by
  rw [written, Term.written?, if_pos h]
  rfl

theorem written_of_not_isWritable (form : Term → String) (h : t.isWritable = false) (s : Session) :
    written form t s = .error (.defect .unwritable) s := by
  rw [written, Term.written?, if_neg (Bool.eq_false_iff.mp h)]
  rfl

/-- A step that is refused changes nothing. -/
theorem reduce_of_refused {fault : StepFault} (h : Attempts s index work kind (.error fault)) :
    reduce index s = .error (.ofStep fault) s := by
  obtain ⟨hwork, path, hpick, hcontract⟩ := h
  rw [reduce, bind_of_ok (current_of_some hwork)]
  simp only [hpick, hcontract]
  rfl

/-- The work is changed before the step is recorded. -/
theorem reduce_of_contracted (h : Attempts s index work kind (.ok t)) :
    reduce index s = (do
      let text ← written Term.render t
      tell (Reporter.recordStep kind.rule text)
      return kind : Action RedexKind) { s with work := some (work.stepped t) } := by
  obtain ⟨hwork, path, hpick, hcontract⟩ := h
  rw [reduce, bind_of_ok (current_of_some hwork)]
  simp only [hpick, hcontract]
  rfl

/-- A step whose result is too long to be written is taken, and only then fails. -/
theorem reduce_of_long (h : Attempts s index work kind (.ok t)) (hlong : t.isWritable = false) :
    reduce index s = .error (.defect .unwritable) { s with work := some (work.stepped t) } := by
  rw [reduce_of_contracted h, bind_of_error (written_of_not_isWritable _ hlong _)]

/-- A step whose result can be written is taken and recorded. -/
theorem reduce_of_written (h : Attempts s index work kind (.ok t))
    (hwritten : t.isWritable = true) : reduce index s = .ok kind (printing { s with
      work := some (work.stepped t)
      reporter.steps := s.reporter.steps ++ [(kind.rule, t.render)] }
      (recordText s.reporter.host.painting s.reporter.verbose kind.rule t.render)) := by
  have hrecord := tell_run (s := { s with work := some (work.stepped t) })
    (Reporter.recordStep_run kind.rule t.render s.reporter)
  rw [reduce_of_contracted h, bind_of_ok (written_run _ hwritten _), bind_of_ok hrecord]
  rfl

/-- Reducing by a number that picks no redex fails, and changes nothing. -/
theorem reduce_of_unpicked (hwork : s.work = some work)
    (hpick : pick? work.term.redexes index = none) (hindex : isWritable index = true) :
    reduce index s = .error (.problem (Problem.general
      ("no redex numbered '" ++ Template.hole ++ "'") [integerText index]).undiagnosed) s := by
  rw [reduce, bind_of_ok (current_of_some hwork)]
  simp only [hpick, writtenInteger, hindex]
  rfl

/-- A number that is too long to be written is not even named. -/
theorem reduce_of_unnamed (hwork : s.work = some work)
    (hpick : pick? work.term.redexes index = none) (hindex : isWritable index = false) :
    reduce index s = .error (.defect .unwritable) s := by
  rw [reduce, bind_of_ok (current_of_some hwork)]
  simp only [hpick, writtenInteger, hindex]
  rfl

theorem sayable_noRedex (index : Int) :
    (Problem.general ("no redex numbered '" ++ Template.hole ++ "'") [integerText index]).Sayable :=
  Problem.sayable_general (by decide) (by decide)

theorem reduction (s : Session) (index : Int) : Reduction s index (reduce index s) := by
  cases hwork : s.work with
  | none =>
      rw [reduce, bind_of_error (current_of_none hwork)]
      exact .noTerm hwork
  | some work =>
      cases hpick : pick? work.term.redexes index with
      | none =>
          cases hindex : isWritable index with
          | true =>
              rw [reduce_of_unpicked hwork hpick hindex]
              exact .noRedex hwork hpick hindex
          | false =>
              rw [reduce_of_unnamed hwork hpick hindex]
              exact .noNumber hwork hpick hindex
      | some redex =>
          obtain ⟨path, kind⟩ := redex
          cases hcontract : work.term.contractAt path with
          | error fault =>
              have hattempt : Attempts s index work kind (.error fault) :=
                ⟨hwork, path, hpick, hcontract⟩
              rw [reduce_of_refused hattempt]
              exact .refused hattempt
          | ok t =>
              have hattempt : Attempts s index work kind (.ok t) := ⟨hwork, path, hpick, hcontract⟩
              cases hwritable : t.isWritable with
              | false =>
                  rw [reduce_of_long hattempt hwritable]
                  exact .unrecorded hattempt hwritable
              | true =>
                  rw [reduce_of_written hattempt hwritable]
                  exact .taken hattempt hwritable _

end Session

end Contractum
