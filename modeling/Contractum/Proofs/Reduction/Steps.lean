import Contractum.Proofs.Reduction.Listing
import Contractum.Proofs.Reduction.Preservation

/-!
# Steps at listed redexes

A step contracts one of the redexes that are listed. Seen along the term, it contracts the whole
term or is a step in one child, and proofs about steps go by these two cases. A sequence of steps
is counted by its length.
-/

namespace Contractum.Term

variable {t u : Term}

/-- Contracting one of its redexes takes a term to another. -/
def StepsTo (t u : Term) : Prop :=
  ∃ path kind, (path, kind) ∈ t.redexes ∧ t.contractAt path = .ok u

/-- A contraction of the whole term, or of something in one of its children. -/
inductive Reduces : Term → Term → Prop
  | root {t u : Term} (contracts : Contracts t u) : Reduces t u
  | inChild {t c d : Term} {i : Nat} (child : HasChild t i c) (step : Reduces c d) :
      Reduces t (t.setChild i d)

/-- `n` steps, one after another, take a term to another. -/
inductive StepsIn : Nat → Term → Term → Prop
  | none (t : Term) : StepsIn 0 t t
  | step {n : Nat} {t u v : Term} (first : t.StepsTo u) (rest : StepsIn n u v) :
      StepsIn (n + 1) t v

theorem reduces_iff_replaceAt :
    Reduces t u ↔
      ∃ path redex v, t.get? path = some redex ∧ Contracts redex v ∧ u = t.replaceAt path v := by
  constructor
  · intro h
    induction h with
    | @root t u contracts =>
        exact ⟨[], t, u, get?_nil t, contracts, (replaceAt_nil t u).symm⟩
    | @inChild t c d i child _ ih =>
        obtain ⟨path, redex, v, hget, hv, rfl⟩ := ih
        have hchild : t.child? i = some c := child?_eq_some_iff.mpr child
        refine ⟨i :: path, redex, v, ?_, hv, ?_⟩
        · rw [get?, hchild, Option.bind_some, hget]
        · rw [replaceAt, hchild]
  · rintro ⟨path, redex, v, hget, hv, rfl⟩
    induction path generalizing t with
    | nil =>
        rw [get?_nil, Option.some_inj] at hget
        subst hget
        rw [replaceAt_nil]
        exact .root hv
    | cons i path ih =>
        obtain ⟨c, hc, hget⟩ := Option.bind_eq_some_iff.mp hget
        rw [replaceAt, hc]
        exact .inChild (child?_eq_some_iff.mp hc) (ih hget)

theorem Contracts.exists_redexKind (h : Contracts t u) : ∃ kind, t.redexKind? = some kind := by
  cases h with
  | beta => exact ⟨.beta, rfl⟩
  | arith | neg => exact ⟨.arithmetic, rfl⟩

/-- The listing misses no contraction, so steps at listed redexes are all the contractions in the
term. -/
theorem stepsTo_iff_reduces : t.StepsTo u ↔ Reduces t u := by
  rw [reduces_iff_replaceAt]
  constructor
  · rintro ⟨path, kind, hlisted, hcontract⟩
    obtain ⟨redex, hget, -⟩ := mem_redexes_iff.mp hlisted
    rcases contractAt_eq_ok_iff.mp hcontract with ⟨hnone, -⟩ | ⟨redex, v, hget, hv, rfl⟩
    · rw [hnone] at hget
      contradiction
    · exact ⟨path, redex, v, hget, contract_eq_ok_iff.mp hv, rfl⟩
  · rintro ⟨path, redex, v, hget, hv, rfl⟩
    obtain ⟨kind, hkind⟩ := hv.exists_redexKind
    have hlisted : (path, kind) ∈ t.redexes := mem_redexes_iff.mpr ⟨redex, hget, hkind⟩
    exact ⟨path, kind, hlisted,
      contractAt_eq_ok_iff.mpr (.inr ⟨redex, v, hget, contract_eq_ok_iff.mpr hv, rfl⟩)⟩

end Contractum.Term
