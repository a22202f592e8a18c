import Contractum.Proofs.Report.Readings
import Contractum.Proofs.Session.Atomicity
import Contractum.Proofs.Shell.Reporting

/-!
# What the commands of the shell do

In a session whose terms can be written, three requests end in a defect that leaves the shell: the
list of redexes before there is a term, a step to a term too long to be written, and a term with a
literal of too many digits. Every other request is answered, also if it is refused, and leaves a
session whose terms can be written.
-/

namespace Contractum

open Text

/-- Whether a request asks the shell to stop. -/
def Request.leaves : Request → Bool
  | .command .exit _ | .command .endOfInput _ => true
  | .command _ _ | .term _ | .blank => false

namespace Shell

/-- A defect leaves the shell at a request. -/
inductive Escapes (s : Session) : Request → Defect → Prop
  /-- There is no term to be shown. -/
  | noTerm (argument : String) (current : s.work = none) :
      Escapes s (.command .redexes argument) .noTerm
  /-- The step is taken, and its result is too long to be written. -/
  | outgrown {argument : String} {index : Int} (number : readInt argument = .ok index)
      (outgrows : s.Outgrows index) : Escapes s (.command .step argument) .unwritable
  /-- A literal is too long to be read. -/
  | tooLong {text : String} {digits : Nat}
      (parsed : Term.parse text = .error (.stream (.tooLong digits))) :
      Escapes s (.term text) (.unreadable digits)

/-- All terms of the session can be written, and its reporter does not end the program. -/
structure Steady (s : Session) : Prop where
  lenient : s.reporter.fatal = false
  writable : ∀ work, s.work = some work → ∀ t ∈ work.term :: work.past, t.isWritable = true

/-- What becomes of a request: a defect that leaves the shell there, or a session in which the
shell goes on. -/
inductive Answers (s : Session) (request : Request) : EStateM.Result Fault Session Reply → Prop
  | goesOn {reply : Reply} {s' : Session} (stays : reply ≠ .stop) (steady : Steady s')
      (harmless : ∀ d, ¬ Escapes s request d) : Answers s request (.ok reply s')
  | leaves {d : Defect} {s' : Session} (escapes : Escapes s request d) :
      Answers s request (.error (.defect d) s')

variable {s s' : Session} {request : Request} {act : Action Unit} {argument text : String}

theorem Escapes.unique {d d' : Defect} (h : Escapes s request d) (h' : Escapes s request d') :
    d = d' := by
  cases h with
  | noTerm | outgrown =>
      cases h'
      rfl
  | tooLong parsed =>
      cases h' with
      | tooLong parsed' =>
          cases parsed.symm.trans parsed'
          rfl

theorem steady_start {reporter : Reporter} (h : reporter.fatal = false) :
    Steady (Session.start reporter) where
  lenient := h
  writable := by
    intro work hwork
    cases hwork

theorem Steady.printing (h : Steady s) (more : String) : Steady (s.printing more) :=
  ⟨h.lenient, h.writable⟩

theorem Steady.term (h : Steady s) {work : Work} (hwork : s.work = some work) :
    work.term.isWritable = true :=
  h.writable work hwork _ List.mem_cons_self

theorem answers_of_printsFrom (hs : Steady s) (hact : s.PrintsFrom act)
    (harmless : ∀ d, ¬ Escapes s request d) : Answers s request (reporting act s) := by
  obtain ⟨more, hact⟩ := hact
  rw [reporting_of_ok hact]
  exact .goesOn Reply.noConfusion (hs.printing more) harmless

/-- An operation outside the reporter may only print. -/
theorem answers_of_unguarded (hs : Steady s) (hact : s.PrintsFrom act)
    (harmless : ∀ d, ¬ Escapes s request d) :
    Answers s request ((do act; return .done : Action Reply) s) := by
  obtain ⟨more, hact⟩ := hact
  rw [bind_of_ok hact]
  exact .goesOn Reply.noConfusion (hs.printing more) harmless

/-- A request that is refused is answered by the report. -/
theorem answers_of_problem {p : Problem} (hs : Steady s) (hact : act s = .error (.problem p) s)
    (hp : p.Sayable) (harmless : ∀ d, ¬ Escapes s request d) :
    Answers s request (reporting act s) := by
  obtain ⟨more, hreport⟩ := exists_reporting_of_problem hact hp hs.lenient
  rw [hreport]
  exact .goesOn Reply.noConfusion (hs.printing more) harmless

theorem answers_of_defect {d : Defect} (hact : act s = .error (.defect d) s')
    (hd : (Reporter.defectProblem d).Sayable) (hlenient : s'.reporter.fatal = false)
    (hescapes : Escapes s request d) : Answers s request (reporting act s) := by
  obtain ⟨more, hreport⟩ := exists_reporting_of_defect hact hd hlenient
  rw [hreport]
  exact .leaves hescapes

/-- An operation in front of the list of redexes. -/
theorem answers_of_shown {α : Type} {first : Action α} {a : α} {work : Work}
    (hfirst : first s = .ok a s') (hs' : Steady s') (hwork : s'.work = some work)
    (harmless : ∀ d, ¬ Escapes s request d) :
    Answers s request (reporting (do discard first; showTerm) s) := by
  obtain ⟨more, hshow⟩ : s'.PrintsFrom showTerm :=
    ⟨_, Session.prints_showTerm hwork (hs'.term hwork) .bold false⟩
  have hact : (do discard first; showTerm : Action Unit) s = .ok () (s'.printing more) := by
    rw [bind_of_ok (discard_of_ok hfirst)]
    exact hshow
  rw [reporting_of_ok hact]
  exact .goesOn Reply.noConfusion (hs'.printing more) harmless

theorem answers_redexes (hs : Steady s) (argument : String) :
    Answers s (.command .redexes argument) (run .redexes argument s) := by
  cases hwork : s.work with
  | none =>
      have hsayable : (Reporter.defectProblem .noTerm).Sayable :=
        Reporter.sayable_defectProblem (by decide) (by decide)
      exact answers_of_defect (Session.showTerm_of_none hwork .bold false) hsayable hs.lenient
        (.noTerm argument hwork)
  | some work =>
      refine answers_of_printsFrom hs
        ⟨_, Session.prints_showTerm hwork (hs.term hwork) .bold false⟩ ?_
      rintro d ⟨-, current⟩
      cases hwork.symm.trans current

theorem sayable_noTermYet : (Problem.sentence "no term has been entered yet").Sayable :=
  Problem.sayable_sentence (by decide)

/-- A step leaves the shell only when the reduction fails for the length of its result. -/
theorem harmless_step {index : Int} {result : EStateM.Result Fault Session RedexKind}
    (hindex : readInt argument = .ok index) (hresult : Session.reduce index s = result)
    (hother : ∀ s', result ≠ .error (.defect .unwritable) s') :
    ∀ d, ¬ Escapes s (.command .step argument) d := by
  intro d hescapes
  cases hescapes with
  | outgrown number outgrows =>
      cases hindex.symm.trans number
      obtain ⟨work, kind, t, hattempt, hlong⟩ := outgrows
      exact hother _ (hresult.symm.trans (Session.reduce_of_long hattempt hlong))

theorem answers_stepAt (hs : Steady s) {index : Int} (hindex : readInt argument = .ok index) :
    Answers s (.command .step argument)
      (reporting (do discard (Session.reduce index); showTerm) s) := by
  have hrefused {p : Problem} (hp : p.Sayable)
      (hresult : Session.reduce index s = .error (.problem p) s) :
      Answers s (.command .step argument)
        (reporting (do discard (Session.reduce index); showTerm) s) := by
    refine answers_of_problem hs (bind_of_error (discard_of_error hresult)) hp ?_
    exact harmless_step hindex hresult fun _ h => by cases h
  have hreduction : Session.Reduction s index (Session.reduce index s) := Session.reduction s index
  generalize hresult : Session.reduce index s = result at hreduction
  cases hreduction with
  | noTerm current =>
      exact hrefused sayable_noTermYet.undiagnosed hresult
  | noRedex =>
      exact hrefused (Session.sayable_noRedex index).undiagnosed hresult
  | noNumber _ _ long =>
      rw [isWritable_of_readInt hindex] at long
      contradiction
  | refused attempt =>
      obtain ⟨hwork, path, -, hcontract⟩ := attempt
      obtain ⟨p, hp, hsayable⟩ := Fault.exists_problem_ofStep (hs.term hwork) hcontract
      rw [hp] at hresult
      exact hrefused hsayable hresult
  | unrecorded attempt long =>
      exact answers_of_defect (bind_of_error (discard_of_error hresult))
        Reporter.sayable_unwritable hs.lenient (.outgrown hindex ⟨_, _, _, attempt, long⟩)
  | @taken work kind t attempt written more =>
      have hwritable : ∀ u ∈ t :: work.term :: work.past, u.isWritable = true :=
        List.forall_mem_cons.mpr ⟨written, hs.writable work attempt.1⟩
      refine answers_of_shown hresult ⟨hs.lenient, ?_⟩ rfl ?_
      · rintro _ ⟨⟩
        exact hwritable
      · exact harmless_step hindex hresult fun _ h => by cases h

theorem answers_step (hs : Steady s) (argument : String) :
    Answers s (.command .step argument) (run .step argument s) := by
  change Answers s _ (reporting (step argument) s)
  rw [step]
  cases hindex : readInt argument with
  | error fault =>
      have hsayable : (Problem.general ("step expects a redex number, got '" ++ Template.hole ++
          "'") [argument]).Sayable :=
        Problem.sayable_general (by decide) (by decide)
      refine answers_of_problem hs rfl hsayable.undiagnosed ?_
      intro d hescapes
      cases hescapes with
      | outgrown number => cases hindex.symm.trans number
  | ok index => exact answers_stepAt hs hindex

theorem answers_tree (hs : Steady s) (argument : String) :
    Answers s (.command .tree argument) (run .tree argument s) := by
  have hharmless : ∀ d, ¬ Escapes s (.command .tree argument) d := by
    rintro d ⟨⟩
  change Answers s _ (reporting tree s)
  cases hwork : s.work with
  | none =>
      have hcurrent := bind_of_error (f := fun work => Session.written Term.outline work.term >>=
        printLine) (Session.current_of_none hwork)
      exact answers_of_problem hs hcurrent sayable_noTermYet.undiagnosed hharmless
  | some work =>
      refine answers_of_printsFrom hs ?_ hharmless
      rw [Session.PrintsFrom, tree, bind_of_ok (Session.current_of_some hwork)]
      exact ⟨_, Session.prints_written (hs.term hwork) (Session.prints_plainLine _ s)⟩

/-- The terms before each step are listed when all of them can be written. -/
theorem printsFrom_history (h : ∀ t ∈ s.history, t.isWritable = true) : s.PrintsFrom history := by
  have hentry (entry : Term × Nat) (hmem : entry ∈ s.history.zipIdx) (more : String) :
      (s.printing more).Prints (do
        let text ← Session.written Term.render entry.1
        printLine ("  " ++ naturalText entry.2 ++ ": " ++ text))
        ("  " ++ naturalText entry.2 ++ ": " ++ entry.1.render ++ "\n") :=
    Session.prints_written (h _ (List.fst_mem_of_mem_zipIdx hmem)) (Session.prints_plainLine _ _)
  have hlist := Session.prints_forM hentry ""
  rw [Session.printing_empty] at hlist
  rw [Session.PrintsFrom, history, get_bind]
  exact ⟨_, hlist⟩

theorem Steady.history (h : Steady s) : ∀ t ∈ s.history, t.isWritable = true := by
  rw [Session.history]
  cases hwork : s.work with
  | none => exact List.forall_mem_nil _
  | some work =>
      intro t ht
      exact h.writable work hwork t (List.mem_cons_of_mem _ (List.mem_reverse.mp ht))

theorem answers_history (hs : Steady s) (argument : String) :
    Answers s (.command .history argument) (run .history argument s) := by
  refine answers_of_unguarded hs (printsFrom_history hs.history) ?_
  rintro d ⟨⟩

theorem answers_undo (hs : Steady s) (argument : String) :
    Answers s (.command .undo argument) (run .undo argument s) := by
  have hharmless : ∀ d, ¬ Escapes s (.command .undo argument) d := by
    rintro d ⟨⟩
  by_cases hpast : ∀ work, s.work = some work → work.past = []
  · have hsayable : (Problem.sentence "nothing to undo").Sayable :=
      Problem.sayable_sentence (by decide)
    have hundo := bind_of_error (f := fun _ => showTerm)
      (discard_of_error (Session.undo_of_no_past hpast))
    exact answers_of_problem hs hundo hsayable.undiagnosed hharmless
  · obtain ⟨⟨text, term, past⟩, hwork, hpast⟩ : ∃ work, s.work = some work ∧ work.past ≠ [] := by
      simpa using hpast
    obtain ⟨t, past, rfl⟩ := List.exists_cons_of_ne_nil hpast
    have hwritable := (List.forall_mem_cons.mp (hs.writable _ hwork)).2
    refine answers_of_shown (Session.undo_of_past hwork) ⟨hs.lenient, ?_⟩ rfl hharmless
    rintro _ ⟨⟩
    exact hwritable

theorem printsFrom_help (argument : String) (s : Session) : s.PrintsFrom (help argument) := by
  rw [help]
  split
  · exact ⟨_, Session.prints_plainLine _ s⟩
  · split <;> exact ⟨_, Session.prints_plainLine _ s⟩

theorem answers_help (hs : Steady s) (argument : String) :
    Answers s (.command .help argument) (run .help argument s) := by
  refine answers_of_unguarded hs (printsFrom_help argument s) ?_
  rintro d ⟨⟩

/-- A text leaves the shell only with a literal of too many digits. -/
theorem answers_term (hs : Steady s) (text : String) :
    Answers s (.term text) (reporting (do discard (Session.submit text); showTerm) s) := by
  cases hparse : Term.parse text with
  | ok t =>
      have hsubmit := Session.submit_run hparse s
      refine answers_of_shown hsubmit ⟨hs.lenient, ?_⟩ rfl ?_
      · rintro _ ⟨⟩
        exact List.forall_mem_singleton.mpr (Term.isWritable_of_parse hparse)
      · intro d hescapes
        cases hescapes with
        | tooLong parsed => cases hparse.symm.trans parsed
  | error fault =>
      have hact := bind_of_error (f := fun _ => showTerm)
        (discard_of_error (Session.submit_of_error hparse s))
      obtain ⟨digits, rfl⟩ | ⟨p, hp, hsayable⟩ := Term.exists_problem_of_parse hparse
      · exact answers_of_defect hact (Reporter.sayable_unreadable digits) hs.lenient
          (.tooLong hparse)
      · rw [hp] at hact
        refine answers_of_problem hs hact hsayable ?_
        intro d hescapes
        cases hescapes with
        | tooLong parsed =>
            cases hparse.symm.trans parsed
            cases hp

/-- Every line is answered in a steady session, unless it asks the shell to stop. -/
theorem answers_onLine (hs : Steady s) (line : String)
    (hstays : (Request.ofLine line).leaves = false) :
    Answers s (Request.ofLine line) (onLine line s) := by
  rw [onLine]
  cases hrequest : Request.ofLine line with
  | blank =>
      refine .goesOn Reply.noConfusion hs ?_
      rintro d ⟨⟩
  | term text => exact answers_term hs text
  | command c argument =>
      cases c with
      | redexes => exact answers_redexes hs argument
      | step => exact answers_step hs argument
      | tree => exact answers_tree hs argument
      | history => exact answers_history hs argument
      | undo => exact answers_undo hs argument
      | help => exact answers_help hs argument
      | endOfInput | exit =>
          rw [hrequest] at hstays
          cases hstays

end Shell

end Contractum
