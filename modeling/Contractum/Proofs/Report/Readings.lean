import Contractum.Proofs.Grammar.Refusals
import Contractum.Proofs.Report.Messages

/-!
# Reports of failed readings

A reading fails at a token, and then it is a problem that can be said, or at a literal of too
many digits, which is a defect. There is no other way: in particular, no reading runs out of the
depth that `Parse.depthBound` gives it.

That depth belongs to the definition of the reading. The limit of the machine on nested calls is
left out, and a text nested deeply enough reaches it, which is reported as `Fault.tooDeep`.
-/

namespace Contractum

open Parse Text

variable {text : String} {ts : List Token} {l : Located} {e : ParseFault}

theorem isBraceless_labels (kinds : List Kind) :
    ∀ label ∈ kinds.map Kind.label, IsBraceless label := by
  intro label hlabel
  obtain ⟨kind, -, rfl⟩ := List.mem_map.mp hlabel
  exact kind.isBraceless_label

/-- A failure at a token is a problem, since what was expected there can always be listed. -/
theorem Halts.exists_problem (h : Halts ts l e) (text : String) :
    ∃ p, Fault.ofParse text e = .problem p ∧ p.Sayable := by
  have hlabels {kinds : List Kind} (hawaits : Awaits ts kinds) : kinds.map Kind.label ≠ [] :=
    mt List.map_eq_nil_iff.mp hawaits.ne_nil
  cases h with
  | @unknownChar kinds _ _ hawaits =>
      exact ⟨_, rfl,
        Problem.sayable_unknownChar (hlabels hawaits) (isBraceless_labels kinds) _ _ _⟩
  | @unexpected kinds _ hawaits =>
      exact ⟨_, rfl, Problem.sayable_expected (hlabels hawaits) (isBraceless_labels kinds)
        (Kind.isBraceless_label _) _ _ _⟩
  | @wrongKind kind _ hawaits =>
      exact ⟨_, rfl, Problem.sayable_wrongKind (hlabels hawaits) (isBraceless_labels [kind])
        (Kind.isBraceless_label _) _ _ _⟩
  | freeVariable => exact ⟨_, rfl, Problem.sayable_freeVariable _ _ _ _⟩

theorem Stream.ofText_error {fault : StreamFault} (h : Stream.ofText text = .error fault) :
    ∃ digits, fault = .tooLong digits := by
  rw [Stream.ofText] at h
  split at h <;> cases h
  exact ⟨_, rfl⟩

/-- A text is no term because it has no first token, or because its reading fails. -/
theorem Term.parse_error (h : Term.parse text = .error e) :
    (∃ fault, Stream.ofText text = .error fault ∧ e = .stream fault) ∨
      ∃ s q, Stream.ofText text = .ok s ∧ whole ⟨s, 0⟩ = .error e q := by
  rw [Term.parse] at h
  cases hs : Stream.ofText text with
  | error fault =>
      rw [hs] at h
      cases h
      exact .inl ⟨fault, rfl, rfl⟩
  | ok s =>
      rw [hs] at h
      refine .inr ⟨s, ?_⟩
      cases hwhole : whole ⟨s, 0⟩ with
      | ok t q =>
          simp only [hwhole] at h
          contradiction
      | error fault q =>
          simp only [hwhole] at h
          cases h
          exact ⟨q, rfl, rfl⟩

/-- A text that is no term has a literal of too many digits, or is a problem to be reported. -/
theorem Term.exists_problem_of_parse (h : Term.parse text = .error e) :
    (∃ digits, e = .stream (.tooLong digits)) ∨
      ∃ p, Fault.ofParse text e = .problem p ∧ p.Sayable := by
  obtain ⟨fault, hs, rfl⟩ | ⟨s, q, hs, hwhole⟩ := Term.parse_error h
  · obtain ⟨digits, rfl⟩ := Stream.ofText_error hs
    exact .inl ⟨digits, rfl⟩
  · have hended : Ended s.items := Stream.items_of_ofText hs ▸ ended_scan 0 text.toList
    have hmirrors := mirrors_whole hended (Nat.le_refl _) []
    rw [hwhole] at hmirrors
    cases hmirrors with
    | error _ _ halts => exact .inr (halts.exists_problem text)
    | tooLong => exact .inl ⟨_, rfl⟩

end Contractum
