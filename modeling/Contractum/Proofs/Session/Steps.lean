import Contractum.Proofs.Report.Handling
import Contractum.Proofs.Session.Outcomes

/-!
# Steps one after another

A list of numbers picks steps one after another, each in the list of redexes of its moment. Either
all of them can be taken, with terms that can be written all the way, or they break off at one that
cannot. A session that takes the steps records each of them, and goes on as long as they do.
-/

namespace Contractum

open Text

variable {t u v : Term} {steps : List Int} {index : Int} {path : Path} {kind : RedexKind}
variable {taken : List (RedexKind × Term)} {work : Work} {s : Session}

namespace Term

/-- The steps of these numbers lead from a term to another, and can all be written. The steps taken
are kinds of redexes, each with the term behind it. -/
inductive Leads : Term → List Int → List (RedexKind × Term) → Term → Prop
  | done (t : Term) : Leads t [] [] t
  | step {t u v : Term} {index : Int} {steps : List Int} {path : Path} {kind : RedexKind}
      {taken : List (RedexKind × Term)}
      (picked : Session.pick? t.redexes index = some (path, kind))
      (contracted : t.contractAt path = .ok u) (written : u.isWritable = true)
      (rest : Leads u steps taken v) : Leads t (index :: steps) ((kind, u) :: taken) v

/-- What keeps a step of this number from being taken to a term that can be written, as the fault
that it ends in. -/
inductive Blocks (t : Term) (index : Int) : Fault → Prop
  /-- There is no redex of this number. -/
  | noRedex (unpicked : Session.pick? t.redexes index = none)
      (written : Text.isWritable index = true) : Blocks t index (.problem (Problem.general
        ("no redex numbered '" ++ Template.hole ++ "'") [integerText index]).undiagnosed)
  /-- There is none, and the number is too long to be named. -/
  | unnamed (unpicked : Session.pick? t.redexes index = none)
      (long : Text.isWritable index = false) : Blocks t index (.defect .unwritable)
  /-- The step is refused. -/
  | refused {path : Path} {kind : RedexKind} {fault : StepFault}
      (picked : Session.pick? t.redexes index = some (path, kind))
      (refused : t.contractAt path = .error fault) : Blocks t index (.ofStep fault)
  /-- The term behind the step is too long to be written. -/
  | unwritable {path : Path} {kind : RedexKind} {u : Term}
      (picked : Session.pick? t.redexes index = some (path, kind))
      (contracted : t.contractAt path = .ok u) (long : u.isWritable = false) :
      Blocks t index (.defect .unwritable)

/-- The steps of these numbers break off at one that ends in a fault, behind the steps taken. -/
inductive BreaksOff : Term → List Int → List (RedexKind × Term) → Fault → Prop
  | blocked {t : Term} {index : Int} {fault : Fault} (blocks : t.Blocks index fault)
      (steps : List Int) : BreaksOff t (index :: steps) [] fault
  | step {t u : Term} {index : Int} {steps : List Int} {path : Path} {kind : RedexKind}
      {taken : List (RedexKind × Term)} {fault : Fault}
      (picked : Session.pick? t.redexes index = some (path, kind))
      (contracted : t.contractAt path = .ok u) (written : u.isWritable = true)
      (rest : BreaksOff u steps taken fault) :
      BreaksOff t (index :: steps) ((kind, u) :: taken) fault

/-- A step can be taken to a term that can be written, or something keeps it from that. -/
theorem takes_or_blocks (t : Term) (index : Int) :
    (∃ path kind u, Session.pick? t.redexes index = some (path, kind) ∧
      t.contractAt path = .ok u ∧ u.isWritable = true) ∨ ∃ fault, t.Blocks index fault := by
  cases hpick : Session.pick? t.redexes index with
  | none =>
      cases hindex : Text.isWritable index with
      | true => exact .inr ⟨_, .noRedex hpick hindex⟩
      | false => exact .inr ⟨_, .unnamed hpick hindex⟩
  | some redex =>
      obtain ⟨path, kind⟩ := redex
      cases hcontract : t.contractAt path with
      | error fault => exact .inr ⟨_, .refused hpick hcontract⟩
      | ok u =>
          cases hwritable : u.isWritable with
          | true => exact .inl ⟨path, kind, u, rfl, hcontract, hwritable⟩
          | false => exact .inr ⟨_, .unwritable hpick hcontract hwritable⟩

/-- A step that is blocked is not taken to a term that can be written. -/
theorem Blocks.not_isWritable {fault : Fault} (h : t.Blocks index fault)
    (picked : Session.pick? t.redexes index = some (path, kind))
    (contracted : t.contractAt path = .ok u) : u.isWritable ≠ true := by
  cases h with
  | noRedex unpicked | unnamed unpicked => cases picked.symm.trans unpicked
  | refused picked' refused =>
      cases picked.symm.trans picked'
      cases contracted.symm.trans refused
  | unwritable picked' contracted' long =>
      cases picked.symm.trans picked'
      cases contracted.symm.trans contracted'
      exact Bool.eq_false_iff.mp long

/-- Only one fault blocks a step. -/
theorem Blocks.unique {fault other : Fault} (h : t.Blocks index fault)
    (h' : t.Blocks index other) : fault = other := by
  cases h with
  | noRedex unpicked written | unnamed unpicked written =>
      cases h' <;> simp_all
  | refused picked refused =>
      cases h' with
      | noRedex unpicked | unnamed unpicked => cases picked.symm.trans unpicked
      | refused picked' refused' =>
          cases picked.symm.trans picked'
          cases refused.symm.trans refused'
          rfl
      | unwritable picked' contracted =>
          cases picked.symm.trans picked'
          cases refused.symm.trans contracted
  | unwritable picked contracted =>
      cases h' with
      | noRedex unpicked | unnamed unpicked => cases picked.symm.trans unpicked
      | refused picked' refused =>
          cases picked.symm.trans picked'
          cases contracted.symm.trans refused
      | unwritable => rfl

theorem leads_or_breaksOff (t : Term) (steps : List Int) :
    (∃ taken u, t.Leads steps taken u) ∨ ∃ taken fault, t.BreaksOff steps taken fault := by
  induction steps generalizing t with
  | nil => exact .inl ⟨[], t, .done t⟩
  | cons index steps ih =>
      obtain ⟨path, kind, u, picked, contracted, written⟩ | ⟨fault, hblocks⟩ :=
        t.takes_or_blocks index
      · obtain ⟨taken, v, hleads⟩ | ⟨taken, fault, hbreaks⟩ := ih u
        · exact .inl ⟨_, v, .step picked contracted written hleads⟩
        · exact .inr ⟨_, fault, .step picked contracted written hbreaks⟩
      · exact .inr ⟨[], fault, .blocked hblocks steps⟩

/-- Whatever blocks a step is reported, if the term can be written. -/
theorem Blocks.exists_reportedAs {fault : Fault} (h : t.Blocks index fault)
    (hwritable : t.isWritable = true) : ∃ p, fault.ReportedAs p := by
  cases h with
  | noRedex => exact ⟨_, .problem (Session.sayable_noRedex index).undiagnosed⟩
  | unnamed | unwritable => exact ⟨_, .defect Reporter.sayable_unwritable⟩
  | refused _ refused =>
      obtain ⟨p, hp, hsayable⟩ := Fault.exists_problem_ofStep hwritable refused
      exact ⟨p, hp ▸ .problem hsayable⟩

theorem BreaksOff.exists_reportedAs {fault : Fault} (h : t.BreaksOff steps taken fault)
    (hwritable : t.isWritable = true) : ∃ p, fault.ReportedAs p := by
  induction h with
  | blocked blocks => exact blocks.exists_reportedAs hwritable
  | step _ _ written _ ih => exact ih written

theorem Leads.isWritable (h : t.Leads steps taken u) (hwritable : t.isWritable = true) :
    u.isWritable = true := by
  induction h with
  | done => exact hwritable
  | step _ _ written _ ih => exact ih written

/-- Steps that all can be taken do not break off. -/
theorem Leads.not_breaksOff {others : List (RedexKind × Term)} {fault : Fault}
    (h : t.Leads steps taken v) : ¬ t.BreaksOff steps others fault := by
  induction h generalizing others with
  | done =>
      intro hbreaks
      cases hbreaks
  | step picked contracted written rest ih =>
      intro hbreaks
      cases hbreaks with
      | blocked blocks => exact absurd written (blocks.not_isWritable picked contracted)
      | step picked' contracted' _ rest' =>
          cases picked.symm.trans picked'
          cases contracted.symm.trans contracted'
          exact ih rest'

/-- The numbers determine the steps taken and the fault that they break off with. -/
theorem BreaksOff.unique {others : List (RedexKind × Term)} {fault other : Fault}
    (h : t.BreaksOff steps taken fault) (h' : t.BreaksOff steps others other) :
    taken = others ∧ fault = other := by
  induction h generalizing others with
  | blocked blocks =>
      cases h' with
      | blocked blocks' => exact ⟨rfl, blocks.unique blocks'⟩
      | step picked contracted written =>
          exact absurd written (blocks.not_isWritable picked contracted)
  | step picked contracted written _ ih =>
      cases h' with
      | blocked blocks => exact absurd written (blocks.not_isWritable picked contracted)
      | step picked' contracted' _ rest =>
          cases picked.symm.trans picked'
          cases contracted.symm.trans contracted'
          obtain ⟨rfl, rfl⟩ := ih rest
          exact ⟨rfl, rfl⟩

end Term

/-- The work behind steps. -/
def Work.followed (work : Work) (taken : List (RedexKind × Term)) : Work :=
  taken.foldl (fun work step => work.stepped step.2) work

/-- What the records of steps print. -/
def traceText (painting : Painting) (verbose : Bool) (taken : List (RedexKind × Term)) : String :=
  String.join (taken.map fun step => recordText painting verbose step.1.rule step.2.render)

/-- Steps lead to the term behind them. -/
theorem Term.Leads.term_followed (h : t.Leads steps taken u) (hterm : work.term = t) :
    (work.followed taken).term = u := by
  induction h generalizing work with
  | done => exact hterm
  | step _ _ _ _ ih => exact ih rfl

theorem Work.followed_text (work : Work) (text : String) (taken : List (RedexKind × Term)) :
    Work.followed { work with text } taken = { work.followed taken with text } := by
  induction taken generalizing work with
  | nil => rfl
  | cons step taken ih => exact ih (work.stepped step.2)

/-- A reporter that is not verbose prints no records. -/
theorem traceText_false (painting : Painting) (taken : List (RedexKind × Term)) :
    traceText painting false taken = "" := by
  induction taken with
  | nil => rfl
  | cons step taken ih =>
      rw [traceText, List.map_cons, String.join_cons]
      exact (congrArg _ ih).trans String.empty_append

namespace Session

/-- The session behind steps from this work. -/
def followed (s : Session) (work : Work) (taken : List (RedexKind × Term)) : Session :=
  printing { s with
    work := some (work.followed taken)
    reporter.steps := s.reporter.steps ++ taken.map fun step => (step.1.rule, step.2.render) }
    (traceText s.reporter.host.painting s.reporter.verbose taken)

theorem followed_nil (hwork : s.work = some work) : s.followed work [] = s := by
  obtain ⟨current, reporter⟩ := s
  obtain rfl : current = some work := hwork
  simp [followed, Work.followed, traceText, printing, Reporter.printing]

theorem followed_cons (s : Session) (work : Work) (kind : RedexKind) (u : Term)
    (taken : List (RedexKind × Term)) :
    (s.followed work [(kind, u)]).followed (work.stepped u) taken =
      s.followed work ((kind, u) :: taken) := by
  simp [followed, Work.followed, traceText, printing, Reporter.printing, String.append_assoc]

/-- A step whose result can be written is taken and recorded. -/
theorem reduce_followed (hwork : s.work = some work)
    (picked : pick? work.term.redexes index = some (path, kind))
    (contracted : work.term.contractAt path = .ok u) (written : u.isWritable = true) :
    reduce index s = .ok kind (s.followed work [(kind, u)]) := by
  rw [reduce_of_written ⟨hwork, path, picked, contracted⟩ written]
  simp [followed, Work.followed, traceText]

/-- A step that is blocked ends in the fault that blocks it, and has printed nothing before. -/
theorem reduce_of_blocks {fault : Fault} (hwork : s.work = some work)
    (h : work.term.Blocks index fault) :
    ∃ s', reduce index s = .error fault s' ∧ s'.reporter = s.reporter := by
  cases h with
  | noRedex unpicked written => exact ⟨s, reduce_of_unpicked hwork unpicked written, rfl⟩
  | unnamed unpicked long => exact ⟨s, reduce_of_unnamed hwork unpicked long, rfl⟩
  | refused picked refused => exact ⟨s, reduce_of_refused ⟨hwork, _, picked, refused⟩, rfl⟩
  | unwritable picked contracted long =>
      exact ⟨_, reduce_of_long ⟨hwork, _, picked, contracted⟩ long, rfl⟩

/-- Steps that lead to a term are taken and recorded one after another. -/
theorem steps_run (h : t.Leads steps taken u) (hwork : s.work = some work) (hterm : work.term = t) :
    (steps.forM fun index => discard (reduce index)) s = .ok () (s.followed work taken) := by
  induction h generalizing s work with
  | done =>
      rw [followed_nil hwork]
      rfl
  | @step t u v index steps path kind taken picked contracted written rest ih =>
      subst hterm
      have hstep := discard_of_ok (reduce_followed hwork picked contracted written)
      have hnext : (s.followed work [(kind, u)]).work = some (work.stepped u) := rfl
      have hrest := ih hnext rfl
      rw [followed_cons] at hrest
      exact (bind_of_ok hstep).trans hrest

/-- Steps that break off end in the fault they break off with, behind the records of those that
were taken. -/
theorem steps_of_breaksOff {fault : Fault} (h : t.BreaksOff steps taken fault)
    (hwork : s.work = some work) (hterm : work.term = t) :
    ∃ s', (steps.forM fun index => discard (reduce index)) s = .error fault s' ∧
      s'.reporter = (s.followed work taken).reporter := by
  induction h generalizing s work with
  | @blocked t index fault blocks steps =>
      subst hterm
      obtain ⟨s', hreduce, hreporter⟩ := reduce_of_blocks hwork blocks
      rw [followed_nil hwork]
      exact ⟨s', bind_of_error (discard_of_error hreduce), hreporter⟩
  | @step t u index steps path kind taken fault picked contracted written rest ih =>
      subst hterm
      have hstep := discard_of_ok (reduce_followed hwork picked contracted written)
      have hnext : (s.followed work [(kind, u)]).work = some (work.stepped u) := rfl
      obtain ⟨s', hrest, hreporter⟩ := ih hnext rfl
      rw [followed_cons] at hreporter
      exact ⟨s', (bind_of_ok hstep).trans hrest, hreporter⟩

end Session

end Contractum
