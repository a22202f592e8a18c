import Contractum.Proofs.Report.Printing
import Contractum.Proofs.Report.Readings
import Contractum.Proofs.Spelling.Limits

/-!
# What becomes of a fault under a reporter

A problem that can be said is over with its report, unless the reporter is fatal. A defect that can
be reported as internal goes on behind its report. A fatal reporter ends the program behind either
report, and every failed reading and every refused step of a term that can be written is reported
in one of the two ways.
-/

namespace Contractum

open Text

theorem isBraceless_naturalText (n : Nat) : IsBraceless (naturalText n) := by
  rw [IsBraceless, naturalText, String.toList_ofList]
  exact braceless_of_forall (p := Char.isDigit) rfl rfl fun _ hc =>
    Nat.isDigit_of_mem_toDigits (by decide) (Nat.le_refl 10) hc

namespace Defect

theorem isBraceless_limitText : IsBraceless limitText := by
  have hfront : IsBraceless "Exceeds the limit (" := by decide
  have hback : IsBraceless " digits) for integer string conversion" := by decide
  exact (hfront.append (isBraceless_naturalText digitLimit)).append hback

theorem isBraceless_limitAdvice : IsBraceless limitAdvice := by decide

theorem isBraceless_unwritable : IsBraceless unwritable.message :=
  isBraceless_limitText.append isBraceless_limitAdvice

theorem isBraceless_unreadable (digits : Nat) : IsBraceless (unreadable digits).message := by
  have hvalue : IsBraceless ": value has " := by decide
  have hdigits : IsBraceless " digits" := by decide
  exact (((isBraceless_limitText.append hvalue).append (isBraceless_naturalText digits)).append
    hdigits).append isBraceless_limitAdvice

end Defect

namespace Reporter

variable {r : Reporter} {p : Problem} {d : Defect}

/-- What a defect says is taken up into its report as it is, if no brace is in it. -/
theorem message_defectProblem (hname : IsBraceless d.className) (hmessage : IsBraceless d.message)
    (host : Host) : (defectProblem d).message host =
      .ok ("unknown error: '" ++ d.className ++ ": " ++ d.message ++ "'") := by
  have hfront : IsBraceless "unknown error: '" := by decide
  have hcolon : IsBraceless ": " := by decide
  have hquote : IsBraceless "'" := by decide
  have hsentence := (((hfront.append hname).append hcolon).append hmessage).append hquote
  exact Problem.message_sentence hsentence host

theorem sayable_defectProblem (hname : IsBraceless d.className) (hmessage : IsBraceless d.message) :
    (defectProblem d).Sayable :=
  fun host => ⟨_, message_defectProblem hname hmessage host⟩

theorem sayable_unwritable : (defectProblem .unwritable).Sayable :=
  sayable_defectProblem (by decide) Defect.isBraceless_unwritable

theorem sayable_unreadable (digits : Nat) : (defectProblem (.unreadable digits)).Sayable := by
  have hname : IsBraceless "ValueError" := by decide
  exact sayable_defectProblem hname (Defect.isBraceless_unreadable digits)

theorem printsFrom_handle (h : p.Sayable) (hfatal : r.fatal = false) :
    PrintsFrom r (handle (.problem p)) := by
  rw [PrintsFrom, handle, get_bind, h.settle]
  exact printsFrom_report h hfatal

/-- A defect that can be reported goes on behind its report. -/
theorem handle_defect (h : (defectProblem d).Sayable) (hfatal : r.fatal = false) :
    ∃ more, handle (.defect d) r = .error (.defect d) (r.printing more) := by
  obtain ⟨more, hreport⟩ := printsFrom_report h hfatal
  refine ⟨more, ?_⟩
  rw [handle, get_bind]
  exact bind_of_ok hreport

end Reporter

/-- The problem that a fault is reported as, where that can be said. -/
inductive Fault.ReportedAs : Fault → Problem → Prop
  | problem {p : Problem} (sayable : p.Sayable) : ReportedAs (.problem p) p
  | defect {d : Defect} (sayable : (Reporter.defectProblem d).Sayable) :
      ReportedAs (.defect d) (Reporter.defectProblem d)

/-- Every failed reading can be reported. -/
theorem Fault.exists_reportedAs_ofParse {text : String} {e : ParseFault}
    (h : Term.parse text = .error e) : ∃ p, (Fault.ofParse text e).ReportedAs p := by
  obtain ⟨digits, rfl⟩ | ⟨p, hp, hsayable⟩ := Term.exists_problem_of_parse h
  · exact ⟨_, .defect (Reporter.sayable_unreadable digits)⟩
  · exact ⟨p, hp ▸ .problem hsayable⟩

/-- A step is refused with a problem that can be said, if the term can be written. -/
theorem Fault.exists_problem_ofStep {t : Term} {path : Path} {fault : StepFault}
    (h : t.isWritable = true) (hrefused : t.contractAt path = .error fault) :
    ∃ p, Fault.ofStep fault = .problem p ∧ p.Sayable := by
  cases fault with
  | notRedex form => exact ⟨_, rfl, Problem.sayable_notRedex form⟩
  | divisionByZero dividend =>
      have hdividend := Term.isWritable_dividend h hrefused
      exact ⟨_, rfl, Problem.sayable_divisionByZero hdividend⟩

/-- A fatal reporter ends the program behind its report, whatever is reported. -/
theorem Reporter.handle_of_fatal {r : Reporter} {fault : Fault} {p : Problem}
    (h : fault.ReportedAs p) (hfatal : r.fatal = true) :
    ∃ said, p.message r.host = .ok said ∧
      handle fault r = .error (.exit "1") (r.printing (p.reportText r.host.painting said)) := by
  cases h with
  | problem sayable =>
      obtain ⟨said, hsaid⟩ := sayable r.host
      refine ⟨said, hsaid, ?_⟩
      rw [handle, get_bind, sayable.settle]
      change report p r = _
      rw [report_run hsaid, if_pos hfatal]
  | @defect d sayable =>
      obtain ⟨said, hsaid⟩ := sayable r.host
      refine ⟨said, hsaid, ?_⟩
      rw [handle, get_bind]
      change (report (defectProblem d) >>= fun _ => throw (.defect d)) r = _
      apply bind_of_error
      rw [report_run hsaid, if_pos hfatal]

end Contractum

