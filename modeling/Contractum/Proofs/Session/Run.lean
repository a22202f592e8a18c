import Contractum.Proofs.Session.Outcomes

/-!
# Runs of a session

A run is any sequence of calls, failing ones included: what a call changed stays when it
fails. Reports and records change the reporter alone, so each call either leaves the work as
it was or does what its name says, and a property of works that these changes preserve holds
after every run.
-/

namespace Contractum

/-- The calls that can change a session. -/
inductive Call where
  | submit (text : String)
  | reduce (index : Int)
  | undo
deriving DecidableEq, Repr

namespace Session

/-- The session that an operation leaves, whether it fails or not. -/
def after {α : Type} (act : Action α) (s : Session) : Session :=
  match act s with
  | .ok _ s' | .error _ s' => s'

/-- The session behind a call. -/
def perform (s : Session) : Call → Session
  | .submit text => after (submit text) s
  | .reduce index => after (reduce index) s
  | .undo => after undo s

/-- The session behind a sequence of calls. -/
def run (s : Session) (calls : List Call) : Session :=
  calls.foldl perform s

/-- The changes that calls make to the work of a session. -/
inductive Change : Option Work → Option Work → Prop
  | refused (work : Option Work) : Change work work
  | submitted {work : Option Work} {text : String} {t : Term} (parsed : Term.parse text = .ok t) :
      Change work (some ⟨text, t, []⟩)
  | reduced {work : Work} {index : Int} {path : Path} {kind : RedexKind} {t : Term}
      (picked : pick? work.term.redexes index = some (path, kind))
      (contracted : work.term.contractAt path = .ok t) :
      Change (some work) (some ⟨work.text, t, work.term :: work.past⟩)
  | undone {text : String} {term t : Term} {past : List Term} :
      Change (some ⟨text, term, t :: past⟩) (some ⟨text, t, past⟩)

theorem Attempts.change {s : Session} {index : Int} {work : Work} {kind : RedexKind} {t : Term}
    (h : Attempts s index work kind (.ok t)) : Change s.work (some (work.stepped t)) := by
  obtain ⟨hwork, path, hpick, hcontract⟩ := h
  rw [hwork]
  exact .reduced hpick hcontract

theorem change_submit (s : Session) (text : String) :
    Change s.work (after (submit text) s).work := by
  cases hparse : Term.parse text with
  | error fault =>
      rw [after, submit_of_error hparse]
      exact .refused _
  | ok t =>
      have hsubmit := submit_run hparse s
      rw [after, hsubmit]
      exact .submitted hparse

theorem change_reduce (s : Session) (index : Int) :
    Change s.work (after (reduce index) s).work := by
  have hreduction : Reduction s index (reduce index s) := reduction s index
  unfold after
  generalize reduce index s = result at hreduction
  cases hreduction with
  | noTerm | noRedex | noNumber | refused => exact .refused _
  | unrecorded attempt | taken attempt => exact attempt.change

theorem change_undo (s : Session) : Change s.work (after undo s).work := by
  obtain ⟨work, reporter⟩ := s
  cases work with
  | none => exact .refused _
  | some work =>
      obtain ⟨text, term, past⟩ := work
      cases past with
      | nil => exact .refused _
      | cons t past => exact .undone

theorem change_perform (s : Session) (call : Call) : Change s.work (perform s call).work := by
  cases call with
  | submit text => exact change_submit s text
  | reduce index => exact change_reduce s index
  | undo => exact change_undo s

/-- What holds of no work, and is kept by every change, holds after every run. -/
theorem run_induction {P : Option Work → Prop} (hstart : P none)
    (hchange : ∀ {work work'}, Change work work' → P work → P work') (reporter : Reporter)
    (calls : List Call) : P (run (start reporter) calls).work := by
  suffices h : ∀ s : Session, P s.work → P (run s calls).work from h (start reporter) hstart
  induction calls with
  | nil =>
      intro s hs
      exact hs
  | cons call calls ih =>
      intro s hs
      have hstep : P (perform s call).work := hchange (change_perform s call) hs
      exact ih (perform s call) hstep

end Session

end Contractum
