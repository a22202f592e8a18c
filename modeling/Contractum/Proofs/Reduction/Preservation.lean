import Contractum.Term.Redex

/-!
# What steps preserve

A property that terms have in a context, such as a scope, is preserved by steps at every
path if it passes between a node and its children, and contractions of whole terms preserve
it. The context may change on the way down, so it is left open what it is.
-/

namespace Contractum.Term

variable {α : Type} {P : α → Term → Prop} {a : α} {t u c : Term} {path : Path}

/-- What redexes become: a function applied to an argument, an operator whose operands are
literals, and a negated literal. -/
inductive Contracts : Term → Term → Prop
  | beta (x : String) (body : Term) (id : Option Int) (arg : Term) :
      Contracts (app (lam x body id) arg) (body.subst x arg)
  | arith {op : Op} {m n k : Int} (value : op.eval? m n = some k) :
      Contracts (arith op (lit m) (lit n)) (lit k)
  | neg (n : Int) : Contracts (neg (lit n)) (lit (-n))

theorem contract_eq_ok_iff : t.contract = .ok u ↔ Contracts t u := by
  constructor
  · intro h
    unfold contract at h
    split at h
    · cases h
      exact .beta ..
    · split at h
      · next hvalue =>
          cases h
          exact .arith hvalue
      · cases h
    · cases h
      exact .neg _
    · cases h
  · intro h
    cases h with
    | beta => rfl
    | arith hvalue => rw [contract, hvalue]
    | neg => rfl

/-- Whether a property passes from a node to its children, in some context, and back to the
node when a child is replaced by a term with the property in that context. -/
def PassesToChildren (P : α → Term → Prop) : Prop :=
  ∀ ⦃a t i c⦄, P a t → t.child? i = some c → ∃ b, P b c ∧ ∀ u, P b u → P a (t.setChild i u)

/-- What passes to children and back passes to every subterm and back. -/
theorem PassesToChildren.subterm (hpasses : PassesToChildren P) (h : P a t)
    (hget : t.get? path = some c) : ∃ b, P b c ∧ ∀ u, P b u → P a (t.replaceAt path u) := by
  induction path generalizing a t with
  | nil =>
      rw [get?_nil, Option.some_inj] at hget
      subst hget
      refine ⟨a, h, ?_⟩
      intro u hu
      rwa [replaceAt_nil]
  | cons i path ih =>
      obtain ⟨d, hd, hget⟩ := Option.bind_eq_some_iff.mp hget
      obtain ⟨b, hchild, hset⟩ := hpasses h hd
      obtain ⟨b', hsub, hreplace⟩ := ih hchild hget
      refine ⟨b', hsub, ?_⟩
      intro u hu
      rw [replaceAt, hd]
      exact hset _ (hreplace u hu)

/-- Steps preserve what passes to children and back, and is preserved by contractions. -/
theorem PassesToChildren.contractAt (hpasses : PassesToChildren P)
    (hcontract : ∀ ⦃b redex v⦄, P b redex → Contracts redex v → P b v) (h : P a t)
    (hu : t.contractAt path = .ok u) : P a u := by
  rcases contractAt_eq_ok_iff.mp hu with ⟨-, rfl⟩ | ⟨redex, v, hredex, hv, rfl⟩
  · exact h
  · obtain ⟨b, hsub, hreplace⟩ := hpasses.subterm h hredex
    have hcontracted : P b v := hcontract hsub (contract_eq_ok_iff.mp hv)
    exact hreplace v hcontracted

end Contractum.Term
