import Contractum.Proofs.Report.Handling
import Contractum.Proofs.Session.Showing
import Contractum.Shell

/-!
# What becomes of failures in the shell

A command runs under the reporter of the session. If the reporter is not fatal, a problem that can
be said is over with its report. A defect is reported as internal, and then it goes on and leaves
the shell.
-/

namespace Contractum

open Text

namespace Shell

variable {s s' : Session} {act : Action Unit} {p : Problem} {d : Defect}

theorem reporting_of_ok (h : act s = .ok () s') : reporting act s = .ok .done s' :=
  bind_of_ok (discard_of_ok (Session.guarded_of_ok h))

theorem exists_reporting_of_problem (h : act s = .error (.problem p) s') (hp : p.Sayable)
    (hfatal : s'.reporter.fatal = false) :
    ∃ more, reporting act s = .ok .done (s'.printing more) := by
  obtain ⟨more, hhandle⟩ := Reporter.printsFrom_handle hp hfatal
  exact ⟨more, bind_of_ok (discard_of_ok (Session.guarded_of_handled h hhandle))⟩

theorem exists_reporting_of_defect (h : act s = .error (.defect d) s')
    (hd : (Reporter.defectProblem d).Sayable) (hfatal : s'.reporter.fatal = false) :
    ∃ more, reporting act s = .error (.defect d) (s'.printing more) := by
  obtain ⟨more, hhandle⟩ := Reporter.handle_defect hd hfatal
  exact ⟨more, bind_of_error (discard_of_error (Session.guarded_of_unhandled h hhandle))⟩

end Shell

end Contractum
