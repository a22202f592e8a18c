import Contractum.Command.Run
import Contractum.Proofs.Session.Showing
import Contractum.Proofs.Session.Steps

/-!
# Runs on one term

A run on one term shows its result when all steps asked for were taken, and not before. Whatever
goes wrong is reported by the fatal reporter of the run, behind what the steps until then have
printed, and ends the run with the exit code of a failure. When there is a result to show, nothing
can go wrong any more: it was written when its step was recorded, and so can be written in part.
-/

namespace Contractum

open Text

namespace Session

variable {s s' : Session} {act : Action Unit} {fault : Fault} {p : Problem}

/-- Under a fatal reporter, an operation that fails ends the program behind the report. -/
theorem guarded_of_fatal (h : act s = .error fault s') (hp : fault.ReportedAs p)
    (hfatal : s'.reporter.fatal = true) :
    ∃ said, p.message s'.reporter.host = .ok said ∧ guarded act s =
      .error (.exit "1") (s'.printing (p.reportText s'.reporter.host.painting said)) := by
  obtain ⟨said, hsaid, hhandle⟩ := Reporter.handle_of_fatal hp hfatal
  exact ⟨said, hsaid, guarded_of_unhandled h hhandle⟩

end Session

namespace Options

variable {options : Options} {text : String} {t u : Term} {taken : List (RedexKind × Term)}

/-- The session of a run on one term behind the steps. -/
def sessionBehind (s : Session) (text : String) (t : Term) (taken : List (RedexKind × Term)) :
    Session :=
  (s.entered text t).followed ⟨text, t, []⟩ taken

/-- A run whose steps can all be taken shows the last term. -/
theorem reduceTerm_run (hparse : Term.parse text = .ok t)
    (hleads : t.Leads options.steps taken u) (s : Session) :
    options.reduceTerm text s = .ok () ((sessionBehind s text t taken).printing
      (Session.shownText Session.kindColumn options.tree u)) := by
  have hsubmit := discard_of_ok (Session.submit_run hparse s)
  have hsteps := Session.steps_run (s := s.entered text t) hleads rfl rfl
  have hterm : (Work.followed ⟨text, t, []⟩ taken).term = u := hleads.term_followed rfl
  have hwritable := hleads.isWritable (Term.isWritable_of_parse hparse)
  have hshow := Session.prints_showTerm (s := sessionBehind s text t taken) rfl (hterm ▸ hwritable)
    .plain options.tree
  rw [Session.columnText_plain, hterm] at hshow
  rw [reduceTerm, bind_of_ok hsubmit, bind_of_ok hsteps]
  exact hshow

/-- A run whose text is no term changes nothing. -/
theorem reduceTerm_of_unread {e : ParseFault} (hparse : Term.parse text = .error e) (s : Session) :
    options.reduceTerm text s = .error (.ofParse text e) s :=
  bind_of_error (discard_of_error (Session.submit_of_error hparse s))

/-- A run whose steps break off ends before there is a result to show. -/
theorem reduceTerm_of_breaksOff {fault : Fault} (hparse : Term.parse text = .ok t)
    (hbreaks : t.BreaksOff options.steps taken fault) (s : Session) :
    ∃ s', options.reduceTerm text s = .error fault s' ∧
      s'.reporter = (sessionBehind s text t taken).reporter := by
  have hsubmit := discard_of_ok (Session.submit_run hparse s)
  obtain ⟨s', hsteps, hreporter⟩ :=
    Session.steps_of_breaksOff (s := s.entered text t) hbreaks rfl rfl
  refine ⟨s', ?_, hreporter⟩
  rw [reduceTerm, bind_of_ok hsubmit]
  exact bind_of_error hsteps

end Options

/-- What a report of this fault prints on a host. -/
def Fault.Prints (fault : Fault) (host : Host) (text : String) : Prop :=
  ∃ p said, fault.ReportedAs p ∧ p.message host = .ok said ∧
    text = p.reportText host.painting said

/-- There is only one report of a fault. -/
theorem Fault.Prints.unique {fault : Fault} {host : Host} {text other : String}
    (h : fault.Prints host text) (h' : fault.Prints host other) : text = other := by
  obtain ⟨p, said, hp, hsaid, rfl⟩ := h
  obtain ⟨q, said', hq, hsaid', rfl⟩ := h'
  obtain rfl : p = q := by
    cases hp <;> cases hq <;> rfl
  cases hsaid.symm.trans hsaid'
  rfl

namespace Outcome

variable {options : Options} {text : String} {steps : List Int} {tree trace : Bool} {host : Host}
variable {t u : Term} {taken : List (RedexKind × Term)} {input : String} {s : Session}
variable {fault : Fault}

theorem ofOptions_of_ok {a : Option Unit} (h : Session.guarded (options.action input)
    (Session.start (options.reporter host)) = .ok a s) :
    ofOptions options host input = ⟨s.reporter.printed, "", .ok ()⟩ := by
  rw [ofOptions, h]

theorem ofOptions_of_error (h : Session.guarded (options.action input)
    (Session.start (options.reporter host)) = .error fault s) :
    ofOptions options host input = ⟨s.reporter.printed, "", .error fault⟩ := by
  rw [ofOptions, h]

/-- What a run on one term prints in front of its result: the warning that there are no redexes, and
the records of the steps. -/
def textBefore (host : Host) (trace : Bool) (text : String) (t : Term)
    (taken : List (RedexKind × Term)) : String :=
  Session.noticeText host.painting text t ++ traceText host.painting trace taken

theorem printed_sessionBehind (text : String) (t : Term) (taken : List (RedexKind × Term)) :
    let behind := Options.sessionBehind (Session.start (options.reporter host)) text t taken
    behind.reporter.printed = textBefore host options.trace text t taken :=
  congrArg (· ++ _) String.empty_append

/-- A run that takes all its steps shows the last term behind what the steps have printed. -/
theorem ofOptions_of_leads (hparse : Term.parse text = .ok t) (hleads : t.Leads steps taken u)
    (input : String) :
    ofOptions ⟨some text, steps, tree, trace⟩ host input =
      ⟨textBefore host trace text t taken ++ Session.shownText Session.kindColumn tree u, "",
        .ok ()⟩ := by
  let options : Options := ⟨some text, steps, tree, trace⟩
  have hrun : options.action input (Session.start (options.reporter host)) = _ :=
    options.reduceTerm_run hparse hleads _
  rw [ofOptions_of_ok (Session.guarded_of_ok hrun)]
  change Outcome.mk ((Options.sessionBehind _ text t taken).reporter.printed ++ _) "" (.ok ()) = _
  rw [printed_sessionBehind]

/-- A run that ends in a fault has its report as the last it prints. -/
theorem ofOptions_of_fault {options : Options} {p : Problem}
    (hrun : options.action input (Session.start (options.reporter host)) = .error fault s)
    (hfatal : s.reporter.fatal = true) (hhost : s.reporter.host = host)
    (hp : fault.ReportedAs p) :
    ∃ report, fault.Prints host report ∧ ofOptions options host input =
      ⟨s.reporter.printed ++ report, "", .error (.exit "1")⟩ := by
  obtain ⟨said, hsaid, hguarded⟩ := Session.guarded_of_fatal hrun hp hfatal
  rw [hhost] at hsaid hguarded
  refine ⟨_, ⟨p, said, hp, hsaid, rfl⟩, ?_⟩
  rw [ofOptions_of_error hguarded]
  rfl

/-- A run on a text that is no term prints the report of that and nothing else. -/
theorem ofOptions_of_unread {e : ParseFault} (hparse : Term.parse text = .error e)
    (input : String) :
    ∃ report, (Fault.ofParse text e).Prints host report ∧
      ofOptions ⟨some text, steps, tree, trace⟩ host input =
        ⟨report, "", .error (.exit "1")⟩ := by
  let options : Options := ⟨some text, steps, tree, trace⟩
  obtain ⟨p, hp⟩ := Fault.exists_reportedAs_ofParse hparse
  have hrun : options.action input (Session.start (options.reporter host)) = _ :=
    options.reduceTerm_of_unread hparse _
  obtain ⟨report, hreport, houtcome⟩ := ofOptions_of_fault hrun rfl rfl hp
  refine ⟨report, hreport, houtcome.trans ?_⟩
  exact congrArg (Outcome.mk · "" _) String.empty_append

/-- A run whose steps break off prints the report of that behind what the steps have printed. -/
theorem ofOptions_of_breaksOff (hparse : Term.parse text = .ok t)
    (hbreaks : t.BreaksOff steps taken fault) (input : String) :
    ∃ report, fault.Prints host report ∧
      ofOptions ⟨some text, steps, tree, trace⟩ host input =
        ⟨textBefore host trace text t taken ++ report, "", .error (.exit "1")⟩ := by
  let options : Options := ⟨some text, steps, tree, trace⟩
  obtain ⟨p, hp⟩ := hbreaks.exists_reportedAs (Term.isWritable_of_parse hparse)
  obtain ⟨s', hrun, hreporter⟩ := options.reduceTerm_of_breaksOff hparse hbreaks
    (Session.start (options.reporter host))
  have hrun : options.action input (Session.start (options.reporter host)) = _ := hrun
  obtain ⟨report, hreport, houtcome⟩ :=
    ofOptions_of_fault hrun (hreporter ▸ rfl) (hreporter ▸ rfl) hp
  rw [hreporter, printed_sessionBehind] at houtcome
  exact ⟨report, hreport, houtcome⟩

theorem result_ofOptions_iff (input : String) :
    (ofOptions ⟨some text, steps, tree, trace⟩ host input).result = .ok () ↔
      ∃ t taken u, Term.parse text = .ok t ∧ t.Leads steps taken u := by
  constructor
  · intro hresult
    cases hparse : Term.parse text with
    | error e =>
        obtain ⟨report, -, houtcome⟩ := ofOptions_of_unread hparse input
        rw [houtcome] at hresult
        cases hresult
    | ok t =>
        obtain ⟨taken, u, hleads⟩ | ⟨taken, fault, hbreaks⟩ := t.leads_or_breaksOff steps
        · exact ⟨t, taken, u, rfl, hleads⟩
        · obtain ⟨report, -, houtcome⟩ := ofOptions_of_breaksOff hparse hbreaks input
          rw [houtcome] at hresult
          cases hresult
  · rintro ⟨t, taken, u, hparse, hleads⟩
    rw [ofOptions_of_leads hparse hleads]

/-- A run on one term returns exactly if the text is a term and all its steps can be taken, to terms
that can be written. Then it shows the last term, its tree if asked, and a line for each redex,
behind the warning that there are no redexes and the records of the steps. In every other case it
ends with the exit code of a failure and shows nothing of the result: all it prints is the report of
the fault that the reading or the step ended in, behind the warning and the records of the steps
until then. -/
theorem ofOptions_all_or_nothing (text : String) (steps : List Int) (tree trace : Bool)
    (host : Host) (input : String) :
    let outcome := ofOptions ⟨some text, steps, tree, trace⟩ host input
    (outcome.result = .ok () ↔ ∃ t taken u, Term.parse text = .ok t ∧ t.Leads steps taken u) ∧
      (∀ t taken u, Term.parse text = .ok t → t.Leads steps taken u →
        outcome.out = textBefore host trace text t taken ++
          Session.shownText Session.kindColumn tree u) ∧
      (outcome.result ≠ .ok () → outcome.result = .error (.exit "1") ∧
        ((∃ e, Term.parse text = .error e ∧ (Fault.ofParse text e).Prints host outcome.out) ∨
          ∃ t taken fault report, Term.parse text = .ok t ∧ t.BreaksOff steps taken fault ∧
            fault.Prints host report ∧
            outcome.out = textBefore host trace text t taken ++ report)) := by
  intro outcome
  have hiff : outcome.result = .ok () ↔ _ := result_ofOptions_iff input
  refine ⟨hiff, ?_, ?_⟩
  · intro t taken u hparse hleads
    have houtcome : outcome = _ := ofOptions_of_leads hparse hleads input
    rw [houtcome]
  · intro hfailed
    cases hparse : Term.parse text with
    | error e =>
        obtain ⟨report, hreport, houtcome⟩ := ofOptions_of_unread hparse input
        have houtcome : outcome = _ := houtcome
        rw [houtcome]
        exact ⟨rfl, .inl ⟨e, rfl, hreport⟩⟩
    | ok t =>
        obtain ⟨taken, u, hleads⟩ | ⟨taken, fault, hbreaks⟩ := t.leads_or_breaksOff steps
        · exact absurd (hiff.mpr ⟨t, taken, u, hparse, hleads⟩) hfailed
        · obtain ⟨report, hreport, houtcome⟩ := ofOptions_of_breaksOff hparse hbreaks input
          have houtcome : outcome = _ := houtcome
          rw [houtcome]
          exact ⟨rfl, .inr ⟨t, taken, fault, report, rfl, hbreaks, hreport, rfl⟩⟩

/-- A run that takes the step of a square shows the product behind the record of the step. With two
more steps to take it fails at the last one, since the product is a number by then, and reports just
that behind the records of the other two. -/
theorem ofOptions_all_or_nothing_square :
    (ofOptions ⟨some "(\\x -> x * x) 3", [0], true, true⟩ (.ofEmphasis false) "").out =
        "β 3 * 3\n3 * 3\n*\n    literal [3]\n    literal [3]\n  [0] arithmetic 3 * 3\n" ∧
      (ofOptions ⟨some "(\\x -> x * x) 3", [0, 0, 0], true, true⟩ (.ofEmphasis true) "").result =
        .error (.exit "1") ∧
      (ofOptions ⟨some "(\\x -> x * x) 3", [0, 0, 0], true, true⟩ (.ofEmphasis true) "").out =
        "\x1b[1m\x1b[35mβ \x1b[0m3 * 3\n\x1b[1m\x1b[35mδ \x1b[0m9\n" ++
          "\x1b[1m\x1b[31merror: \x1b[0mno redex numbered '\x1b[1m0\x1b[0m'\n" := by
  let product : Term := .arith .mul (.lit 3) (.lit 3)
  let factor : Term := .var "x" (some 0)
  let square : Term := .app (.lam "x" (.arith .mul factor factor) (some 0)) (.lit 3)
  have hparse : Term.parse "(\\x -> x * x) 3" = .ok square := by decide +kernel
  have hbeta : square.contractAt [] = .ok product := by decide +kernel
  have hwritable : product.isWritable = true := by decide +kernel
  have hleads : square.Leads [0] [(.beta, product)] product :=
    .step rfl hbeta hwritable (.done product)
  have hblocks : (Term.lit 9).Blocks 0 _ := .noRedex rfl (by decide +kernel)
  have hbreaks : square.BreaksOff [0, 0, 0] [(.beta, product), (.arithmetic, .lit 9)] _ :=
    .step rfl hbeta hwritable (.step rfl rfl (by decide +kernel) (.blocked hblocks []))
  have hout := (ofOptions_all_or_nothing "(\\x -> x * x) 3" [0] true true (.ofEmphasis false)
    "").2.1 square _ product hparse hleads
  have hrun := ofOptions_all_or_nothing "(\\x -> x * x) 3" [0, 0, 0] true true (.ofEmphasis true) ""
  have hfailed : (ofOptions ⟨some "(\\x -> x * x) 3", [0, 0, 0], true, true⟩ (.ofEmphasis true)
      "").result ≠ .ok () := by
    intro hok
    obtain ⟨t, taken, u, ht, hall⟩ := hrun.1.mp hok
    cases hparse.symm.trans ht
    exact hall.not_breaksOff hbreaks
  obtain ⟨hexit, ⟨e, herror, -⟩ | ⟨t, taken, fault, report, ht, hends, hreport, hprinted⟩⟩ :=
    hrun.2.2 hfailed
  · cases hparse.symm.trans herror
  · cases hparse.symm.trans ht
    obtain ⟨rfl, rfl⟩ := hbreaks.unique hends
    have hsaid : Fault.Prints _ (.ofEmphasis true) _ :=
      ⟨_, _, .problem (Session.sayable_noRedex 0).undiagnosed,
        Problem.message_general (by decide) (by decide) _, rfl⟩
    rw [hreport.unique hsaid] at hprinted
    exact ⟨hout.trans (by decide +kernel), hexit, hprinted.trans (by decide +kernel)⟩

end Outcome

end Contractum
