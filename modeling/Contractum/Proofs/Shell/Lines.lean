import Contractum.Proofs.Shell.Commands

/-!
# Lines fed to the shell

The shell takes lines one after another, and goes on after each of them as long as no defect leaves
it. From a fresh session on, it gets through all lines that do not ask it to stop, unless one of
them is a request at which a defect leaves the shell.
-/

namespace Contractum.Shell

open Text

/-- The session behind lines that are fed to the shell one by one, if every call returns and none
asks to stop. -/
def feed? (s : Session) : List String → Option Session
  | [] => some s
  | line :: lines =>
    match onLine line s with
    | .ok .stop _ | .error _ _ => none
    | .ok _ s' => feed? s' lines

variable {s s' : Session} {line : String} {lines : List String}

theorem feed?_cons_of_ok {reply : Reply} (h : onLine line s = .ok reply s') (hstays : reply ≠ .stop)
    (lines : List String) : feed? s (line :: lines) = feed? s' lines := by
  rw [feed?, h]
  cases reply with
  | stop => exact absurd rfl hstays
  | done | blank => rfl

theorem feed?_cons_of_error {fault : Fault} (h : onLine line s = .error fault s')
    (lines : List String) : feed? s (line :: lines) = none := by
  rw [feed?, h]

/-- Lines that the shell goes on after leave a steady session steady. -/
theorem Steady.feed (hs : Steady s) (hstay : ∀ line ∈ lines, (Request.ofLine line).leaves = false)
    (h : feed? s lines = some s') : Steady s' := by
  induction lines generalizing s with
  | nil =>
      cases h
      exact hs
  | cons line lines ih =>
      obtain ⟨hline, hlines⟩ := List.forall_mem_cons.mp hstay
      have hanswers := answers_onLine hs line hline
      generalize hrun : onLine line s = result at hanswers
      cases hanswers with
      | goesOn stays steady =>
          rw [feed?_cons_of_ok hrun stays] at h
          exact ih steady hlines h
      | leaves =>
          rw [feed?_cons_of_error hrun] at h
          cases h

/-- In a steady session, the shell gets through lines exactly if it meets no request among them at
which a defect leaves it. -/
theorem feed?_isSome_iff (hs : Steady s)
    (hstay : ∀ line ∈ lines, (Request.ofLine line).leaves = false) :
    (feed? s lines).isSome = true ↔
      ∀ before line after s' d, lines = before ++ line :: after → feed? s before = some s' →
        ¬ Escapes s' (Request.ofLine line) d := by
  induction lines generalizing s with
  | nil =>
      refine iff_of_true rfl ?_
      intro before line after s' d hsplit
      cases before <;> cases hsplit
  | cons first lines ih =>
      obtain ⟨hfirst, hlines⟩ := List.forall_mem_cons.mp hstay
      have hanswers := answers_onLine hs first hfirst
      generalize hrun : onLine first s = result at hanswers
      cases hanswers with
      | @goesOn reply s₁ stays steady harmless =>
          rw [feed?_cons_of_ok hrun stays, ih steady hlines]
          constructor
          · intro h before line after s' d hsplit hbefore
            cases before with
            | nil =>
                cases hsplit
                cases hbefore
                exact harmless d
            | cons _ before =>
                cases hsplit
                rw [feed?_cons_of_ok hrun stays] at hbefore
                exact h before line after s' d rfl hbefore
          · intro h before line after s' d hsplit hbefore
            refine h (first :: before) line after s' d (congrArg (first :: ·) hsplit) ?_
            rw [feed?_cons_of_ok hrun stays, hbefore]
      | leaves escapes =>
          rw [feed?_cons_of_error hrun]
          refine iff_of_false Bool.false_ne_true ?_
          intro h
          exact h [] first lines s _ rfl rfl escapes

/-- The shell gets through all lines that do not ask it to stop, from a fresh session on and unless
the reporter is fatal, exactly if there is no request among them at which a defect leaves it. There
are three such requests: the list of redexes when no term was entered, a step to a term too long
to be written, and a text with a literal of too many digits. Then the call ends in that defect. -/
theorem feed_iff_harmless {reporter : Reporter} (hlenient : reporter.fatal = false)
    {lines : List String} (hstay : ∀ line ∈ lines, (Request.ofLine line).leaves = false) :
    ((feed? (Session.start reporter) lines).isSome = true ↔
      ∀ before line after s d, lines = before ++ line :: after →
        feed? (Session.start reporter) before = some s → ¬ Escapes s (Request.ofLine line) d) ∧
      ∀ before line after s d, lines = before ++ line :: after →
        feed? (Session.start reporter) before = some s → Escapes s (Request.ofLine line) d →
          ∃ s', onLine line s = .error (.defect d) s' := by
  have hstart : Steady (Session.start reporter) := steady_start hlenient
  refine ⟨feed?_isSome_iff hstart hstay, ?_⟩
  rintro before line after s d rfl hbefore hescapes
  obtain ⟨hfront, hback⟩ := List.forall_mem_append.mp hstay
  obtain ⟨hline, -⟩ := List.forall_mem_cons.mp hback
  have hsteady : Steady s := hstart.feed hfront hbefore
  have hanswers := answers_onLine hsteady line hline
  generalize onLine line s = result at hanswers
  cases hanswers with
  | goesOn _ _ harmless => exact absurd hescapes (harmless d)
  | @leaves d' s' escapes =>
      obtain rfl := hescapes.unique escapes
      exact ⟨s', rfl⟩

/-- A reporter that goes on behind its reports, and has not reported anything yet. -/
def fresh : Reporter :=
  ⟨false, false, .ofEmphasis false, [], ""⟩

/-- The shell gets through a step, its withdrawal and the list of terms before it. It does not get
through the list of redexes as its first request. -/
theorem feed_undone :
    fresh.fatal = false ∧
      (feed? (Session.start fresh) ["(\\x -> 1 / x) 0", "step 0", "undo", "history"]).isSome ∧
      (∀ s d, feed? (Session.start fresh) ["(\\x -> 1 / x) 0", "step 0", "undo"] = some s →
        ¬ Escapes s (Request.ofLine "history") d) ∧
      Escapes (Session.start fresh) (Request.ofLine "redexes") .noTerm ∧
      ∃ s', onLine "redexes" (Session.start fresh) = .error (.defect .noTerm) s' := by
  have hfeed : (feed? (Session.start fresh)
      ["(\\x -> 1 / x) 0", "step 0", "undo", "history"]).isSome = true := by
    decide +kernel
  have hstay : ∀ line ∈ ["(\\x -> 1 / x) 0", "step 0", "undo", "history"],
      (Request.ofLine line).leaves = false := by
    simp only [List.forall_mem_cons]
    exact ⟨by decide +kernel, by decide +kernel, by decide +kernel, by decide +kernel,
      List.forall_mem_nil _⟩
  have hredexes : Request.ofLine "redexes" = .command .redexes "" := by decide +kernel
  have hleave : ∀ line ∈ ["redexes"], (Request.ofLine line).leaves = false := by
    rw [List.forall_mem_singleton, hredexes]
    rfl
  have hescapes : Escapes (Session.start fresh) (Request.ofLine "redexes") .noTerm :=
    hredexes ▸ .noTerm "" rfl
  refine ⟨rfl, hfeed, fun s d hbefore => ?_, hescapes, ?_⟩
  · exact (feed_iff_harmless (rfl : fresh.fatal = false) hstay).1.mp hfeed _ _ [] s d rfl hbefore
  · exact (feed_iff_harmless (rfl : fresh.fatal = false) hleave).2 [] _ [] _ _ rfl rfl hescapes

/-- A list of redexes asked for before any term was entered does not ask the shell to stop, and a
defect leaves the shell at it. -/
theorem feed_redexes :
    (Request.ofLine "redexes").leaves = false ∧
      feed? (Session.start fresh) ["redexes"] = none ∧
      ∃ s', onLine "redexes" (Session.start fresh) = .error (.defect .noTerm) s' := by
  have hrequest : Request.ofLine "redexes" = .command .redexes "" := by decide +kernel
  have hsayable : (Reporter.defectProblem .noTerm).Sayable :=
    Reporter.sayable_defectProblem (by decide) (by decide)
  have hshow : showTerm (Session.start fresh) = .error (.defect .noTerm) (Session.start fresh) :=
    Session.showTerm_of_none rfl .bold false
  obtain ⟨more, hreport⟩ := exists_reporting_of_defect hshow hsayable rfl
  have hline : onLine "redexes" (Session.start fresh) =
      .error (.defect .noTerm) ((Session.start fresh).printing more) := by
    rw [onLine, hrequest]
    exact hreport
  exact ⟨hrequest ▸ rfl, feed?_cons_of_error hline [], _, hline⟩

end Contractum.Shell
