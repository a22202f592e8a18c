import Mathlib
import Contractum.Proofs.Report.Handling
import Contractum.Proofs.Report.Spending

/-!
# Faults under the guard of a reporter

A reporter that is not fatal deals with every fault that leaves the operation it guards: problems,
deep nesting and interruptions are over with a report, an exit passes, and a defect is reported as
internal and goes on. The report of a defect has its class and its message inside a template, and
this is where it can go wrong: if one of them has a brace in it, the report says something else, or
the template cannot be filled and that defect goes on instead, without a report.

Fields of the template can ask for objects of the host. Whatever these are, the class and the
message come through where they have no braces. Where they have some, they come through only on a
host with objects that bring the very braces back.
-/

namespace Contractum

open Text

/-- Bold texts have no braces but those in the texts themselves. -/
def Text.Painting.AddsNoBraces (painting : Painting) : Prop :=
  ∀ text, IsBraceless text → IsBraceless (painting.bold text)

theorem Text.Painting.addsNoBraces_ofEmphasis (emphasis : Bool) :
    (Painting.ofEmphasis emphasis).AddsNoBraces := by
  intro text h
  cases emphasis with
  | false => exact h
  | true =>
      have hfront : IsBraceless "\x1b[1m" := by decide
      have hback : IsBraceless "\x1b[0m" := by decide
      exact (hfront.append h).append hback

theorem Text.Objects.isBraceless_description : IsBraceless description := by
  unfold description
  refine .append (.append (.append (.append (.append ?_ ?_) ?_) ?_) ?_) ?_
  all_goals decide +kernel

theorem Text.Objects.bringNoBraces_textClass : textClass.BringNoBraces where
  attributeOf {value found name} h := by
    have hdoc : IsBraceless "__doc__" := by decide
    have hclass : IsBraceless "__class__" := by decide
    have hname : IsBraceless "__name__" := by decide
    simp only [textClass] at h
    split at h <;> cases h
    · rw [Value.chars]
      exact ⟨hdoc, isBraceless_description⟩
    · exact ⟨hclass, braceless_nil⟩
    · exact ⟨hname, by decide⟩
  itemOf h := by cases h
  textOf h := by
    cases h
    decide
  layoutOf {handle code cs} h := by
    simp only [textClass] at h
    split at h <;> cases h
    decide

/-- A host without the objects that bring braces. -/
def Host.withoutBraces (host : Host) : Host :=
  { host with objects := host.objects.withoutBraces }

/-- The line of a report that says this about a defect. -/
def internalText (painting : Painting) (said : String) : String :=
  lineText painting (Styled.colour .red "[internal] " ++ Styled.colour .red "error: " ++
    Styled.plain said)

/-- What is said about a term that is nested too deeply. -/
def nestingText : String := "term is nested too deeply, maximum recursion depth exceeded"

/-- What is said about an interruption. -/
def interruptText : String := "keyboard interrupt"

theorem internalText_ne_empty (painting : Painting) (said : String) :
    internalText painting said ≠ "" := by
  rw [internalText, lineText]
  intro h
  simpa using congrArg String.toList h

theorem internalText_injective (painting : Painting) : (internalText painting).Injective := by
  intro said other h
  simp only [internalText, lineText, Styled.render_append, Styled.render_plain] at h
  simpa using h

theorem Fault.settle_settle (host : Host) (fault : Fault) :
    (fault.settle host).settle host = fault.settle host := by
  cases fault with
  | problem p =>
      cases hsaid : p.message host with
      | ok said => simp only [settle, hsaid]
      | error d => simp only [settle, hsaid]
  | defect | tooDeep | interrupt | exit => rfl

namespace Reporter

variable {α : Type} {r r' : Reporter} {act : Reporting α} {fault : Fault} {p : Problem}
  {d : Defect} {said : String}

/-- What a guarded operation ends in whose fault is over with its report. -/
def reported (r : Reporter) (p : Problem) (said : String) :
    EStateM.Result Fault Reporter (Option α) :=
  .ok none (r.printing (p.reportText r.host.painting said))

/-- What a reporter that is not fatal should make of a fault. -/
inductive Settles (r : Reporter) : Fault → EStateM.Result Fault Reporter (Option α) → Prop
  /-- A problem is over with a report of its message. -/
  | problem {p : Problem} {said : String} (message : p.message r.host = .ok said) :
      Settles r (.problem p) (r.reported p said)
  /-- Deep nesting is over with a report. -/
  | tooDeep (message : String) :
      Settles r (.tooDeep message) (r.reported (.sentence nestingText) nestingText)
  /-- An interruption is over with a report. -/
  | interrupt (message : String) :
      Settles r (.interrupt message) (r.reported (.sentence interruptText) interruptText)
  /-- An exit passes without a report. -/
  | exit (code : String) : Settles r (.exit code) (.error (.exit code) r)
  /-- A defect goes on behind a report that holds its class and its message as they are. -/
  | defect {d : Defect} {said : String} (className : d.className.toList <:+: said.toList)
      (message : d.message.toList <:+: said.toList) :
      Settles r (.defect d) (.error (.defect d) (r.printing (internalText r.host.painting said)))

theorem Settles.exists_of_defect {outcome : EStateM.Result Fault Reporter (Option α)}
    (h : Settles r (.defect d) outcome) : ∃ said, d.className.toList <:+: said.toList ∧
      d.message.toList <:+: said.toList ∧
      outcome = .error (.defect d) (r.printing (internalText r.host.painting said)) := by
  cases h with
  | defect hname hmessage => exact ⟨_, hname, hmessage, rfl⟩

theorem printing_injective : r.printing.Injective := by
  intro more further h
  have hprinted := congrArg Reporter.printed h
  simpa [printing] using hprinted

/-- What a guarded operation ends in, behind the handling of its fault. -/
def ending : EStateM.Result Fault Reporter Unit → EStateM.Result Fault Reporter (Option α)
  | .ok _ r => .ok none r
  | .error fault r => .error fault r

theorem guarded_of_error (h : act r = .error fault r') :
    guarded act r = ending (handle fault r') := by
  rw [guarded, h]
  dsimp only
  cases handle fault r' <;> rfl

theorem handle_settle (fault : Fault) (r : Reporter) :
    handle (fault.settle r.host) r = handle fault r := by
  rw [handle, handle, get_bind, get_bind, Fault.settle_settle]

theorem ending_report (hsaid : p.message r.host = .ok said) (hfatal : r.fatal = false) :
    ending (report p r) = (r.reported p said : EStateM.Result Fault Reporter (Option α)) := by
  rw [report_of_not_fatal hsaid hfatal]
  rfl

/-- A defect goes on behind the report of what its template says. If that cannot be filled, it is
another defect that goes on, and nothing is reported. -/
theorem handle_defect_run (hfatal : r.fatal = false) : handle (.defect d) r =
    match (defectProblem d).message r.host with
    | .ok said => .error (.defect d) (r.printing (internalText r.host.painting said))
    | .error other => .error (.defect other) r := by
  rw [handle, get_bind]
  change (report (defectProblem d) >>= fun _ => throw (.defect d)) r = _
  split
  · next said hsaid =>
      have hinternal : (defectProblem d).reportText r.host.painting said =
          internalText r.host.painting said := String.append_empty
      have hreport := report_of_not_fatal hsaid hfatal
      rw [hinternal] at hreport
      exact bind_of_ok hreport
  · next other hother =>
      have hworded : worded (defectProblem d) r = .error (.defect other) r := by
        rw [worded, get_bind, hother]
        rfl
      apply bind_of_error
      rw [report]
      exact bind_of_error hworded

/-- Braces in the class or in the message of a defect do not come through its report, where objects
bring none. -/
theorem isBraceless_of_message {host : Host} (hpaint : host.painting.AddsNoBraces)
    (hsaid : (defectProblem d).message host.withoutBraces = .ok said)
    (hname : d.className.toList <:+: said.toList) (hmessage : d.message.toList <:+: said.toList) :
    IsBraceless d.className ∧ IsBraceless d.message := by
  have hobjects : host.withoutBraces.objects.BringNoBraces :=
    Objects.bringNoBraces_withoutBraces host.objects
  have hargs : ∀ arg ∈ [""].map host.withoutBraces.painting.bold, IsBraceless arg :=
    List.forall_mem_singleton.mpr (hpaint "" (by decide))
  have hfront : IsBraceless "unknown error: '" := by decide
  have hbetween : IsBraceless ": " := by decide
  have hbehind : IsBraceless "'" := by decide
  have hfilled := (Problem.message_general_eq
    ("unknown error: '" ++ d.className ++ ": " ++ d.message ++ "'") [""]
      host.withoutBraces).symm.trans hsaid
  cases hfill : Template.fill host.withoutBraces.objects
      ("unknown error: '" ++ d.className ++ ": " ++ d.message ++ "'")
      ([""].map host.withoutBraces.painting.bold) with
  | error other =>
      rw [hfill] at hfilled
      cases hfilled
  | ok text =>
      rw [hfill] at hfilled
      cases hfilled
      exact Template.isBraceless_of_fill hobjects hargs hfront hbetween (by decide) hbehind hfill
        hname hmessage

/-- A defect is reported as it is, but only thanks to objects of the host that bring braces. -/
structure Restores (host : Host) (d : Defect) (said : String) : Prop where
  message : (defectProblem d).message host = .ok said
  className_infix : d.className.toList <:+: said.toList
  message_infix : d.message.toList <:+: said.toList
  borrowed : (defectProblem d).message host.withoutBraces ≠ .ok said

/-- Only a host with objects that bring braces restores anything. -/
theorem Restores.not_bringNoBraces {host : Host} (h : Restores host d said) :
    ¬ host.objects.BringNoBraces := by
  intro hobjects
  have hhost : host.withoutBraces = host := by rw [Host.withoutBraces, hobjects.withoutBraces_eq]
  apply h.borrowed
  rw [hhost]
  exact h.message

/-- The host of the program restores nothing: there, braces never come through. -/
theorem not_restores_ofEmphasis (emphasis : Bool) : ¬ Restores (.ofEmphasis emphasis) d said :=
  fun h => h.not_bringNoBraces Objects.bringNoBraces_textClass

/-- Objects among which an attribute of a text is the very field that asks for it. -/
def echoing : Objects where
  attributeOf _ name :=
    .ok (.text (Template.openBrace :: '.' :: name.toList ++ [Template.closeBrace]))
  itemOf _ _ := .error .missingPart
  textOf _ _ := .error .missingPart
  layoutOf _ _ := .error .missingPart

theorem restores_echoing : Restores ⟨.unpainted, echoing⟩ (.other "ValueError" "\x7b.x\x7d")
    "unknown error: 'ValueError: \x7b.x\x7d'" where
  message := by cbv
  className_infix := by decide +kernel
  message_infix := by decide +kernel
  borrowed := by
    have hrefused : (defectProblem (.other "ValueError" "\x7b.x\x7d")).message
        (Host.withoutBraces ⟨.unpainted, echoing⟩) = .error (.template (.raised "" "")) := by
      cbv
    rw [hrefused]
    rintro ⟨⟩

theorem settles_of_message (hsaid : (defectProblem d).message r.host = .ok said)
    (hfatal : r.fatal = false) (hname : d.className.toList <:+: said.toList)
    (hmessage : d.message.toList <:+: said.toList) :
    Settles r (.defect d)
      (ending (handle (.defect d) r) : EStateM.Result Fault Reporter (Option α)) := by
  rw [handle_defect_run hfatal, hsaid]
  exact .defect hname hmessage

/-- The class and the message of a defect come through its report exactly if no brace is in them, or
objects bring the braces back. -/
theorem settles_defect_iff (hfatal : r.fatal = false) (hpaint : r.host.painting.AddsNoBraces) :
    Settles r (.defect d)
        (ending (handle (.defect d) r) : EStateM.Result Fault Reporter (Option α)) ↔
      IsBraceless d.className ∧ IsBraceless d.message ∨ ∃ said, Restores r.host d said := by
  constructor
  · intro hsettles
    rw [handle_defect_run hfatal] at hsettles
    obtain ⟨said, hname, hmessage, hending⟩ := hsettles.exists_of_defect
    cases hsaid : (defectProblem d).message r.host with
    | error other =>
        rw [hsaid] at hending
        injection hending with _ hprinted
        have hempty := printing_injective (printing_empty.trans hprinted)
        exact absurd hempty.symm (internalText_ne_empty _ _)
    | ok other =>
        rw [hsaid] at hending
        injection hending with _ hprinted
        obtain rfl := internalText_injective _ (printing_injective hprinted)
        by_cases hborrowed : (defectProblem d).message r.host.withoutBraces = .ok other
        · exact .inl (isBraceless_of_message hpaint hborrowed hname hmessage)
        · exact .inr ⟨other, hsaid, hname, hmessage, hborrowed⟩
  · rintro (⟨hname, hmessage⟩ | ⟨said, hrestores⟩)
    · have hnamed : d.className.toList <:+:
          ("unknown error: '" ++ d.className ++ ": " ++ d.message ++ "'").toList := by
        simp only [String.toList_append, List.append_assoc]
        exact List.infix_append' _ _ _
      have hsaid : d.message.toList <:+:
          ("unknown error: '" ++ d.className ++ ": " ++ d.message ++ "'").toList := by
        rw [String.toList_append, String.toList_append]
        exact List.infix_append _ _ _
      exact settles_of_message (message_defectProblem hname hmessage _) hfatal hnamed hsaid
    · exact settles_of_message hrestores.message hfatal hrestores.className_infix
        hrestores.message_infix

theorem settles_handle_iff (hsettled : fault.settle r.host = fault) (hfatal : r.fatal = false)
    (hpaint : r.host.painting.AddsNoBraces) :
    Settles r fault (ending (handle fault r) : EStateM.Result Fault Reporter (Option α)) ↔
      ∀ d, fault = .defect d →
        IsBraceless d.className ∧ IsBraceless d.message ∨ ∃ said, Restores r.host d said := by
  cases fault with
  | problem p =>
      refine iff_of_true ?_ (by rintro d ⟨⟩)
      cases hsaid : p.message r.host with
      | error d =>
          rw [Fault.settle, hsaid] at hsettled
          cases hsettled
      | ok said =>
          have hhandle : handle (.problem p) r = report p r := by
            rw [handle, get_bind, hsettled]
          rw [hhandle, ending_report hsaid hfatal]
          exact .problem hsaid
  | tooDeep message =>
      have hplain : IsBraceless nestingText := by decide
      have hsaid := Problem.message_sentence hplain r.host
      exact iff_of_true (ending_report hsaid hfatal ▸ .tooDeep message) (by rintro d ⟨⟩)
  | interrupt message =>
      have hplain : IsBraceless interruptText := by decide
      have hsaid := Problem.message_sentence hplain r.host
      exact iff_of_true (ending_report hsaid hfatal ▸ .interrupt message) (by rintro d ⟨⟩)
  | exit code => exact iff_of_true (.exit code) (by rintro d ⟨⟩)
  | defect d =>
      rw [settles_defect_iff hfatal hpaint]
      constructor
      · rintro hthrough _ ⟨⟩
        exact hthrough
      · intro hthrough
        exact hthrough d rfl

/-- A reporter that is not fatal makes of every fault what it should, but of defects whose class
or message has a brace in it that is not brought back by an object of the host. A problem that has
no message counts as the defect that keeps it from having one. -/
theorem guarded_settles_iff (h : act r = .error fault r') (hfatal : r'.fatal = false)
    (hpaint : r'.host.painting.AddsNoBraces) :
    Settles r' (fault.settle r'.host) (guarded act r) ↔
      ∀ d, fault.settle r'.host = .defect d →
        IsBraceless d.className ∧ IsBraceless d.message ∨ ∃ said, Restores r'.host d said := by
  rw [guarded_of_error h, ← handle_settle]
  exact settles_handle_iff (Fault.settle_settle _ _) hfatal hpaint

/-- A reporter that was not used yet, for plain texts. -/
def unused : Reporter :=
  { fatal := false, verbose := false, host := .ofEmphasis false }

/-- The defect of a key that is missing. -/
def missingKey : Defect :=
  .other "KeyError" "'boom'"

theorem guarded_settles_missingKey :
    guarded (α := Unit) (throw (.defect missingKey)) unused =
        .error (.defect missingKey)
          (unused.printing "[internal] error: unknown error: 'KeyError: 'boom''\n") ∧
      Settles (α := Unit) unused (.defect missingKey)
        (guarded (throw (.defect missingKey)) unused) := by
  have hact : (throw (.defect missingKey) : Reporting Unit) unused =
      .error (.defect missingKey) unused := rfl
  have hbraceless : IsBraceless missingKey.className ∧ IsBraceless missingKey.message := by decide
  have hpaint : unused.host.painting.AddsNoBraces := Painting.addsNoBraces_ofEmphasis false
  refine ⟨?_, (guarded_settles_iff hact rfl hpaint).mpr ?_⟩
  · rw [guarded_of_error hact, handle_defect_run rfl,
      message_defectProblem hbraceless.1 hbraceless.2]
    rfl
  · rintro d ⟨⟩
    exact .inl hbraceless

/-- A defect whose message is the name of a field. -/
def namedField : Defect :=
  .other "ValueError" "\x7bk\x7d"

/-- The report of such a defect asks for an argument of that name. There is none, so it is this
defect that goes on, and nothing is reported. -/
theorem guarded_namedField :
    guarded (α := Unit) (throw (.defect namedField)) unused =
        .error (.defect (.template (.unknownName "k"))) unused ∧
      ¬ Settles (α := Unit) unused (.defect namedField)
        (guarded (throw (.defect namedField)) unused) := by
  have hmessage : (defectProblem namedField).message unused.host =
      .error (.template (.unknownName "k")) := by
    cbv
  have hact : (throw (.defect namedField) : Reporting Unit) unused =
      .error (.defect namedField) unused := rfl
  have hguarded : guarded (α := Unit) (throw (.defect namedField)) unused =
      .error (.defect (.template (.unknownName "k"))) unused := by
    rw [guarded_of_error hact, handle_defect_run rfl, hmessage]
    rfl
  refine ⟨hguarded, ?_⟩
  rw [hguarded]
  intro hsettles
  obtain ⟨said, -, -, houtcome⟩ := hsettles.exists_of_defect
  cases houtcome

/-- A message that asks for the class of a text gets it, and is not reported as it is. -/
example : (defectProblem (.other "ValueError" "\x7b.__class__\x7d")).message unused.host =
    .ok "unknown error: 'ValueError: <class 'str'>'" := by
  cbv

end Reporter

end Contractum
