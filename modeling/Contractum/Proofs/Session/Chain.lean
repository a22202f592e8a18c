import Contractum.Proofs.Reduction.Steps
import Contractum.Proofs.Session.WellFormed
import Mathlib.Data.List.Chain

/-!
# The history as a chain of steps

The terms of a session lead from the text submitted last to the current term, each by one
reduction of the term before it. This holds after every run, also after a step that was taken
and could not be recorded. Undoing goes back along the same terms, and then is refused.
-/

namespace Contractum

namespace Session

variable {s : Session} {work : Work} {text : String} {t u : Term} {past : List Term}

/-- The text that a call submits with success. -/
def submitted? (s : Session) : Call → Option String
  | .submit text =>
    match submit text s with
    | .ok _ _ => some text
    | .error _ _ => none
  | .reduce _ | .undo => none

/-- The last text that a run submits with success. -/
def lastSubmitted? (s : Session) : List Call → Option String
  | [] => none
  | call :: calls => (lastSubmitted? (perform s call) calls).or (submitted? s call)

/-- The text that the current term was read from. -/
def text? (s : Session) : Option String :=
  s.work.map (·.text)

theorem text?_submit (s : Session) (text : String) :
    (perform s (.submit text)).text? = (submitted? s (.submit text)).or s.text? := by
  cases hparse : Term.parse text with
  | error fault => simp [perform, after, submitted?, submit_of_error hparse]
  | ok t =>
      have hsubmit := submit_run hparse s
      simp [perform, after, submitted?, hsubmit, text?]

theorem text?_reduce (s : Session) (index : Int) :
    (perform s (.reduce index)).text? = s.text? := by
  have hreduction : Reduction s index (reduce index s) := reduction s index
  change (after (reduce index) s).text? = s.text?
  unfold after
  generalize reduce index s = result at hreduction
  cases hreduction with
  | noTerm | noRedex | noNumber | refused => rfl
  | unrecorded attempt | taken attempt => simp [text?, attempt.1, printing, Work.stepped]

theorem text?_undo (s : Session) : (perform s .undo).text? = s.text? := by
  obtain ⟨work, reporter⟩ := s
  cases work with
  | none => rfl
  | some work =>
      obtain ⟨text, term, past⟩ := work
      cases past with
      | nil => rfl
      | cons t past => rfl

/-- Only a text that is submitted with success takes the place of the former text. -/
theorem text?_perform (s : Session) (call : Call) :
    (perform s call).text? = (submitted? s call).or s.text? := by
  cases call with
  | submit text => exact text?_submit s text
  | reduce index => exact text?_reduce s index
  | undo => exact text?_undo s

theorem text?_run (s : Session) (calls : List Call) :
    (run s calls).text? = (lastSubmitted? s calls).or s.text? := by
  induction calls generalizing s with
  | nil => rfl
  | cons call calls ih =>
      calc (run (perform s call) calls).text?
          = (lastSubmitted? (perform s call) calls).or ((submitted? s call).or s.text?) := by
            rw [ih, text?_perform]
        _ = (lastSubmitted? s (call :: calls)).or s.text? := by
            rw [lastSubmitted?, Option.or_assoc]

/-- A term that is reached from the term of a text by steps, with the terms before each of
them. -/
inductive Traced (text : String) : Term → List Term → Prop
  | parsed {t : Term} (h : Term.parse text = .ok t) : Traced text t []
  | stepped {t u : Term} {past : List Term} (h : Traced text t past) (step : t.StepsTo u) :
      Traced text u (t :: past)

theorem Traced.isChain (h : Traced text t past) :
    (t :: past).IsChain fun u t => t.StepsTo u := by
  induction h with
  | parsed => exact .singleton _
  | stepped _ step ih => exact .cons_cons step ih

theorem Traced.exists_reverse (h : Traced text t past) :
    ∃ first rest, (t :: past).reverse = first :: rest ∧ Term.parse text = .ok first := by
  induction h with
  | parsed h => exact ⟨_, [], rfl, h⟩
  | @stepped t u past _ _ ih =>
      obtain ⟨first, rest, hreverse, hparse⟩ := ih
      exact ⟨first, rest ++ [u], by rw [List.reverse_cons, hreverse]; rfl, hparse⟩

theorem Change.traced {work work' : Option Work} (h : Change work work')
    (htraced : ∀ w, work = some w → Traced w.text w.term w.past) :
    ∀ w, work' = some w → Traced w.text w.term w.past := by
  cases h with
  | refused => exact htraced
  | submitted hparse =>
      rintro w ⟨rfl⟩
      exact .parsed hparse
  | reduced hpick hcontract =>
      rintro w ⟨rfl⟩
      exact .stepped (htraced _ rfl) ⟨_, _, mem_of_pick? hpick, hcontract⟩
  | undone =>
      rintro w ⟨rfl⟩
      cases htraced _ rfl with
      | stepped hbefore => exact hbefore

theorem terms_of_some (h : s.work = some work) : s.terms = (work.term :: work.past).reverse := by
  simp [terms, history, h]

/-- Undoing gives the last term but one, and takes the last one away. -/
theorem exists_undo (h : 2 ≤ s.terms.length) :
    ∃ t s', undo s = .ok t s' ∧ s.terms[s.terms.length - 2]? = some t ∧
      s'.terms = s.terms.dropLast ∧ s'.text? = s.text? := by
  obtain ⟨work, reporter⟩ := s
  cases work with
  | none => simp [terms, history] at h
  | some work =>
      obtain ⟨text, term, past⟩ := work
      cases past with
      | nil => simp [terms, history] at h
      | cons t past =>
          refine ⟨t, _, undo_of_past rfl, ?_, ?_, rfl⟩
          · simp [terms, history]
          · simp [terms, history]

theorem undo_of_single (h : s.terms.length ≤ 1) :
    undo s = .error (.problem (Problem.sentence "nothing to undo").undiagnosed) s := by
  apply undo_of_no_past
  intro work hwork
  rw [terms_of_some hwork] at h
  simpa using h

theorem submit_error {fault : Fault} {s' : Session} (h : submit text s = .error fault s') :
    s' = s := by
  cases hparse : Term.parse text with
  | error fault =>
      rw [submit_of_error hparse] at h
      cases h
      rfl
  | ok t =>
      have hsubmit := submit_run hparse s
      rw [hsubmit] at h
      contradiction

theorem undo_error {fault : Fault} {s' : Session} (h : undo s = .error fault s') : s' = s := by
  by_cases hterms : 2 ≤ s.terms.length
  · obtain ⟨t, s', hundo, -⟩ := exists_undo hterms
    rw [hundo] at h
    contradiction
  · rw [undo_of_single (by omega)] at h
    cases h
    rfl

/-- Undoing `k` times takes the last `k` terms away, as long as one is left. -/
theorem terms_run_undo (s : Session) {k : Nat} (h : k < s.terms.length) :
    (run s (.replicate k .undo)).terms = s.terms.take (s.terms.length - k) ∧
      (run s (.replicate k .undo)).text? = s.text? := by
  induction k generalizing s with
  | zero => simp [run]
  | succ k ih =>
      obtain ⟨t, s', hundo, -, hterms, htext⟩ := exists_undo (s := s) (by omega)
      have hrun : run s (.replicate (k + 1) .undo) = run s' (.replicate k .undo) := by
        simp [run, List.replicate_succ, perform, after, hundo]
      have hlength : s'.terms.length = s.terms.length - 1 := by rw [hterms, List.length_dropLast]
      obtain ⟨hafter, hkept⟩ := ih s' (by omega)
      rw [hrun, hafter, hkept, htext, hlength, hterms, List.dropLast_eq_take, List.take_take]
      exact ⟨by congr 1; omega, rfl⟩

theorem run_replicate_succ (s : Session) (call : Call) (k : Nat) :
    run s (.replicate (k + 1) call) = perform (run s (.replicate k call)) call := by
  simp [run, List.replicate_succ']

/-- The undoing behind `k` others gives the last term that they and it leave. -/
theorem exists_undo_run_undo (s : Session) {k : Nat} (h : k + 1 < s.terms.length) :
    ∃ t, undo (run s (.replicate k .undo)) = .ok t (run s (.replicate (k + 1) .undo)) ∧
      s.terms[s.terms.length - (k + 2)]? = some t := by
  obtain ⟨hterms, -⟩ := terms_run_undo s (k := k) (by omega)
  have hlength : (run s (.replicate k .undo)).terms.length = s.terms.length - k := by
    rw [hterms, List.length_take]
    omega
  obtain ⟨t, s', hundo, hlast, -, -⟩ := exists_undo (s := run s (.replicate k .undo)) (by omega)
  refine ⟨t, ?_, ?_⟩
  · rw [run_replicate_succ, hundo]
    simp [perform, after, hundo]
  · rw [hlength, hterms, List.getElem?_take_of_lt (by omega)] at hlast
    rw [← hlast]
    congr 1

/-- The terms of a session, the oldest first, are a chain of steps from the term of its text. -/
theorem chain_of_traced (hwork : s.work = some work)
    (htraced : Traced work.text work.term work.past) :
    ∃ first rest, s.terms = first :: rest ∧ Term.parse work.text = .ok first ∧
      s.terms.IsChain Term.StepsTo := by
  obtain ⟨first, rest, hreverse, hparse⟩ := htraced.exists_reverse
  rw [terms_of_some hwork]
  exact ⟨first, rest, hreverse, hparse, List.isChain_reverse.mpr htraced.isChain⟩

/-- After every run, submitting and undoing change nothing when they fail. Once a text was
submitted, the terms of the session are a chain of steps from its term to the current one.
Undoing goes back through all of them, one at a time, and then is refused. -/
theorem chain_run (reporter : Reporter) (calls : List Call) :
    let s := run (start reporter) calls
    (∀ text fault s', submit text s = .error fault s' → s' = s) ∧
    (∀ fault s', undo s = .error fault s' → s' = s) ∧
    ∀ text, lastSubmitted? (start reporter) calls = some text →
      ∃ first rest, s.terms = first :: rest ∧ s.text? = some text ∧
        Term.parse text = .ok first ∧ s.terms.IsChain Term.StepsTo ∧
        (∀ k < rest.length,
          (run s (.replicate (k + 1) .undo)).terms = s.terms.take (rest.length - k) ∧
          (run s (.replicate (k + 1) .undo)).text? = some text ∧
          ∃ t, undo (run s (.replicate k .undo)) = .ok t (run s (.replicate (k + 1) .undo)) ∧
            s.terms[rest.length - (k + 1)]? = some t) ∧
        ∃ fault, undo (run s (.replicate rest.length .undo)) =
          .error fault (run s (.replicate rest.length .undo)) := by
  intro s
  refine ⟨fun _ _ _ => submit_error, fun _ _ => undo_error, ?_⟩
  intro text hsubmitted
  have htext : s.text? = some text := by
    rw [text?_run, hsubmitted]
    rfl
  obtain ⟨work, hwork, rfl⟩ : ∃ work, s.work = some work ∧ work.text = text :=
    Option.map_eq_some_iff.mp htext
  have htraced : ∀ w, s.work = some w → Traced w.text w.term w.past :=
    run_induction (fun _ hnone => nomatch hnone) Change.traced reporter calls
  obtain ⟨first, rest, hterms, hparse, hchain⟩ := chain_of_traced hwork (htraced work hwork)
  have hlength : s.terms.length = rest.length + 1 := by rw [hterms, List.length_cons]
  refine ⟨first, rest, hterms, htext, hparse, hchain, ?_, ?_⟩
  · intro k hk
    obtain ⟨hbehind, hkept⟩ := terms_run_undo s (k := k + 1) (by omega)
    obtain ⟨t, hundo, ht⟩ := exists_undo_run_undo s (k := k) (by omega)
    rw [hlength, Nat.add_sub_add_right] at hbehind
    rw [hlength, Nat.add_sub_add_right] at ht
    exact ⟨hbehind, hkept.trans htext, t, hundo, ht⟩
  · obtain ⟨hfirst, -⟩ := terms_run_undo s (k := rest.length) (by omega)
    refine ⟨_, undo_of_single ?_⟩
    rw [hfirst, List.length_take]
    omega

/-- A run with a step that is undone and taken again behind another, a text that is no term and
a reduction that is refused. -/
def retakenCalls : List Call :=
  [.submit "(\\x -> x + x) (1 + 2)", .reduce 0, .undo, .submit "y", .reduce 1, .reduce 7,
    .reduce 0]

theorem chain_retaken :
    let s := run (start ⟨false, false, false, [], ""⟩) retakenCalls
    lastSubmitted? (start ⟨false, false, false, [], ""⟩) retakenCalls =
        some "(\\x -> x + x) (1 + 2)" ∧
      ∃ t₀ t₁ t₂, s.terms = [t₀, t₁, t₂] ∧ Term.parse "(\\x -> x + x) (1 + 2)" = .ok t₀ ∧
        [t₀, t₁, t₂].IsChain Term.StepsTo ∧
        undo s = .ok t₁ (run s [.undo]) ∧ (run s [.undo]).terms = [t₀, t₁] := by
  intro s
  have hlast : lastSubmitted? (start ⟨false, false, false, [], ""⟩) retakenCalls =
      some "(\\x -> x + x) (1 + 2)" := by
    decide +kernel
  have hlength : s.terms.length = 3 := by
    decide +kernel
  obtain ⟨-, -, hchain⟩ := chain_run ⟨false, false, false, [], ""⟩ retakenCalls
  obtain ⟨t₀, rest, hterms, -, hparse, hsteps, hundo, -⟩ := hchain _ hlast
  change s.terms = t₀ :: rest at hterms
  obtain ⟨t₁, t₂, rfl⟩ : ∃ t₁ t₂, rest = [t₁, t₂] := by
    rw [hterms, List.length_cons, Nat.add_right_cancel_iff] at hlength
    exact List.length_eq_two.mp hlength
  obtain ⟨hbehind, -, t, hfirst, hget⟩ := hundo 0 Nat.zero_lt_two
  change s.terms[1]? = some t at hget
  change (run s [.undo]).terms = s.terms.take 2 at hbehind
  change s.terms.IsChain Term.StepsTo at hsteps
  rw [hterms] at hget hbehind hsteps
  cases hget
  exact ⟨hlast, t₀, t₁, t₂, hterms, hparse, hsteps, hfirst, hbehind⟩

end Session

end Contractum
