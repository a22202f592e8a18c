import Contractum.Proofs.Command.OneShot
import Contractum.Proofs.Shell.StepLines
import Contractum.Proofs.Shell.Terms

/-!
# The command line and the shell

The shell does with lines what the command line does with its arguments. A run on one term takes the
same steps as the shell does when it gets the text and then a line for each step, and it ends in the
same work. What it shows is what the shell answers to the last line.
-/

namespace Contractum

open Text

namespace Options

variable {options result : Options}

/-- All numbers of steps can be written. -/
def Written (options : Options) : Prop :=
  ∀ index ∈ options.steps, Text.isWritable index = true

theorem Written.addStep {value : String} (h : options.Written)
    (hstep : options.addStep value = .ok result) : result.Written := by
  rw [Options.addStep] at hstep
  split at hstep
  · next n hread =>
      cases hstep
      exact List.forall_mem_append.mpr
        ⟨h, List.forall_mem_singleton.mpr (isWritable_of_readInt hread)⟩
  · cases hstep

theorem Written.addFlag {f : Flag} {value : Option String} (h : options.Written)
    (hflag : options.addFlag f value = .ok result) : result.Written := by
  unfold Options.addFlag at hflag
  split at hflag <;> cases hflag <;> exact h

/-- The numbers of steps come from texts, whatever stands between them. -/
theorem Written.take {placed : Bool} {extras : List String} {args : List Argument}
    (h : options.Written) (htake : options.take placed extras args = .ok result) :
    result.Written := by
  fun_induction Options.take options placed extras args
  case case1 =>
    cases htake
    exact h
  case case2 | case12 | case15 => cases htake
  case case13 ih | case14 ih =>
    obtain ⟨next, hstep, hrest⟩ := exists_of_bind_eq_ok htake
    exact ih next (h.addStep hstep) hrest
  case case16 ih =>
    obtain ⟨next, hflag, hrest⟩ := exists_of_bind_eq_ok htake
    exact ih next (h.addFlag hflag) hrest
  case case3 ih | case4 ih | case5 ih | case6 ih | case7 ih | case8 ih | case9 ih | case10 ih |
      case11 ih =>
    exact ih h htake

theorem written_of_ofArguments {args : List String} (h : ofArguments args = .ok result) :
    result.Written := by
  obtain ⟨arguments, -, htake⟩ := exists_of_bind_eq_ok h
  have hstart : ({} : Options).Written := List.forall_mem_nil _
  exact hstart.take htake

end Options

namespace Shell

variable {t u : Term} {steps : List Int} {taken : List (RedexKind × Term)} {first before : String}
variable {s s₁ : Session} {work : Work}

/-- The shell takes steps line by line behind a first line that has shown the term they begin with.
The last line, which is the first one if there are no steps, shows the term where they lead. -/
theorem feed?_of_leads (h : t.Leads steps taken u)
    (hsteps : ∀ index ∈ steps, Text.isWritable index = true)
    (hline : onLine first s = .ok .done s₁) (hwork : s₁.work = some work) (hterm : work.term = t)
    (hplain : s₁.reporter.host.painting = .unpainted) (hquiet : s₁.reporter.verbose = false)
    (hprinted : s₁.reporter.printed =
      s.reporter.printed ++ (before ++ Session.shownText Session.kindColumn false t)) :
    ∃ front last s' s'', first :: steps.map stepLine = front ++ [last] ∧
      feed? s front = some s' ∧ onLine last s' = .ok .done s'' ∧
      s''.work = some (work.followed taken) ∧ s''.reporter.printed = s'.reporter.printed ++
        ((if steps = [] then before else "") ++ Session.shownText Session.kindColumn false u) := by
  induction h generalizing first before s s₁ work with
  | done t => exact ⟨[], first, s, s₁, rfl, rfl, hline, hwork, hprinted⟩
  | @step t u v index steps path kind taken picked contracted written rest ih =>
      subst hterm
      obtain ⟨hindex, hrest⟩ := List.forall_mem_cons.mp hsteps
      have hnext := onLine_stepLine hwork hindex picked contracted written
      have htrace : (s₁.followed work [(kind, u)]).reporter.printed = s₁.reporter.printed := by
        change s₁.reporter.printed ++ traceText _ s₁.reporter.verbose _ = _
        rw [hquiet, traceText_false, String.append_empty]
      have hshown : ((s₁.followed work [(kind, u)]).printing (Session.shownText
          (Session.columnText s₁.reporter.host.painting .bold) false u)).reporter.printed =
            s₁.reporter.printed ++ ("" ++ Session.shownText Session.kindColumn false u) := by
        change (s₁.followed work [(kind, u)]).reporter.printed ++ _ = _
        rw [htrace, hplain, Session.columnText_unpainted, String.empty_append]
      obtain ⟨front, last, s', s'', hlines, hfeed, hlast, hdone, hout⟩ :=
        ih hrest hnext rfl rfl hplain hquiet hshown
      refine ⟨first :: front, last, s', s'', congrArg (first :: ·) hlines, ?_, hlast, hdone, ?_⟩
      · rw [feed?_cons_of_ok hline Reply.noConfusion]
        exact hfeed
      · rw [hout, if_neg (List.cons_ne_nil index steps), ite_self]

/-- Steps are taken only from a term that has redexes, so there is no warning in front of them. -/
theorem noticeText_of_leads (h : t.Leads steps taken u) (hsteps : steps ≠ [])
    (painting : Painting) (text : String) : Session.noticeText painting text t = "" := by
  cases h with
  | done => exact absurd rfl hsteps
  | @step t u v index steps path kind taken picked =>
      have hne : t.redexes.isEmpty = false := by
        rw [List.isEmpty_eq_false_iff]
        exact List.ne_nil_of_mem (Session.mem_of_pick? picked)
      rw [Session.noticeText, hne, if_neg Bool.false_ne_true]

/-- What a run on one term without its tree and its trace returns with, the shell answers. When it
gets the text, which is not the name for the end of the input, and then a line for each step, it
goes on after all of them with the same term and the same past. The answer to the last line is what
the run prints, but for the warning that there are no redexes. -/
theorem feed?_agrees {args : List String} {text input : String} {steps : List Int}
    {reporter : Reporter} {host : Host} (hplain : reporter.host.painting = .unpainted)
    (hquiet : reporter.verbose = false) (hunpainted : host.painting = .unpainted)
    (hargs : Options.ofArguments args = .ok ⟨some text, steps, false, false⟩)
    (hresult : (Outcome.ofCommandLine args host input).result = .ok ())
    (hterm : ∀ argument, Request.ofLine text ≠ .command .endOfInput argument) :
    ∃ t main work front last s s', Term.parse text = .ok t ∧
      Session.guarded (Options.action ⟨some text, steps, false, false⟩ input)
        (Session.start (Options.reporter ⟨some text, steps, false, false⟩ host)) =
          .ok (some ()) main ∧ main.work = some work ∧
      text :: steps.map stepLine = front ++ [last] ∧
      feed? (Session.start reporter) front = some s ∧ onLine last s = .ok .done s' ∧
      s'.work = some { work with text := strip text } ∧
      (Outcome.ofCommandLine args host input).out = Session.noticeText .unpainted text t ++
        Session.shownText Session.kindColumn false work.term ∧
      s'.reporter.printed = s.reporter.printed ++
        (Session.noticeText .unpainted (strip text) t ++
          Session.shownText Session.kindColumn false work.term) := by
  let options : Options := ⟨some text, steps, false, false⟩
  have houtcome : Outcome.ofCommandLine args host input =
      Outcome.ofOptions options host input := by
    rw [Outcome.ofCommandLine, hargs]
  rw [houtcome] at hresult ⊢
  obtain ⟨t, taken, u, hparse, hleads⟩ := (Outcome.result_ofOptions_iff input).mp hresult
  have hmain : options.action input (Session.start (options.reporter host)) = _ :=
    options.reduceTerm_run hparse hleads _
  have hname : Request.leadingName text ≠ Command.endOfInput.name := by
    intro hname
    obtain ⟨argument, hrequest⟩ := Request.ofLine_eq_endOfInput hparse hname
    exact hterm argument hrequest
  have hline := onLine_of_term (Request.ofLine_eq_term hparse hname) (Term.parse_strip hparse)
    (Session.start reporter)
  have hfirst : (((Session.start reporter).entered (strip text) t).printing (Session.shownText
      (Session.columnText reporter.host.painting .bold) false t)).reporter.printed =
        reporter.printed ++ (Session.noticeText .unpainted (strip text) t ++
          Session.shownText Session.kindColumn false t) := by
    change reporter.printed ++ Session.noticeText reporter.host.painting _ t ++ _ = _
    rw [hplain, Session.columnText_unpainted, String.append_assoc]
  obtain ⟨front, last, s, s', hlines, hfeed, hlast, hwork, hprinted⟩ :=
    feed?_of_leads hleads (Options.written_of_ofArguments hargs) hline rfl rfl hplain hquiet hfirst
  have hwork : s'.work = some { Work.followed ⟨text, t, []⟩ taken with text := strip text } :=
    hwork.trans (congrArg some (Work.followed_text ⟨text, t, []⟩ (strip text) taken))
  have hlead : (Work.followed ⟨text, t, []⟩ taken).term = u := hleads.term_followed rfl
  refine ⟨t, _, _, front, last, s, s', hparse, Session.guarded_of_ok hmain, rfl, hlines, hfeed,
    hlast, hwork, ?_, ?_⟩
  · rw [Outcome.ofOptions_of_leads hparse hleads, Outcome.textBefore, traceText_false,
      String.append_empty, hunpainted, hlead]
  · rw [hprinted, hlead]
    split
    · rfl
    · next hsteps => rw [noticeText_of_leads hleads hsteps]

/-- A step given as an option and the same step asked for by a line show the same product. -/
theorem feed?_agrees_square :
    Options.ofArguments ["(\\x -> x * x) 3", "--step", "0"] =
        .ok ⟨some "(\\x -> x * x) 3", [0], false, false⟩ ∧
      (Outcome.ofCommandLine ["(\\x -> x * x) 3", "--step", "0"] false "").out =
        "3 * 3\n  [0] arithmetic 3 * 3\n" ∧
      ∃ s s', feed? (Session.start fresh) ["(\\x -> x * x) 3"] = some s ∧
        onLine "step 0" s = .ok .done s' ∧
        s'.reporter.printed = s.reporter.printed ++ "3 * 3\n  [0] arithmetic 3 * 3\n" := by
  have hargs : Options.ofArguments ["(\\x -> x * x) 3", "--step", "0"] =
      .ok ⟨some "(\\x -> x * x) 3", [0], false, false⟩ := by
    decide +kernel
  have hresult : (Outcome.ofCommandLine ["(\\x -> x * x) 3", "--step", "0"] false "").result =
      .ok () := by
    decide +kernel
  have hout : (Outcome.ofCommandLine ["(\\x -> x * x) 3", "--step", "0"] false "").out =
      "3 * 3\n  [0] arithmetic 3 * 3\n" := by
    decide +kernel
  have hrequest : Request.ofLine "(\\x -> x * x) 3" = .term "(\\x -> x * x) 3" := by decide +kernel
  have hstrip : strip "(\\x -> x * x) 3" = "(\\x -> x * x) 3" := by decide +kernel
  obtain ⟨t, main, work, front, last, s, s', -, -, -, hlines, hfeed, hlast, -, hagree, hprinted⟩ :=
    feed?_agrees (rfl : fresh.host.painting = .unpainted) rfl rfl hargs hresult
      (fun argument h => Request.noConfusion (hrequest.symm.trans h))
  have hsplit : front = ["(\\x -> x * x) 3"] ∧ [last] = ["step 0"] :=
    List.append_inj' hlines.symm rfl
  obtain ⟨rfl, hstep⟩ := hsplit
  cases hstep
  rw [hstrip, ← hagree, hout] at hprinted
  exact ⟨hargs, hout, s, s', hfeed, hlast, hprinted⟩

end Shell

end Contractum
