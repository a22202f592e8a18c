import Contractum.Term.Path
import Contractum.Term.Substitution

/-!
# Redexes and single steps

A redex is a function applied to an argument, or an operator over literals. A step
contracts one redex that the caller picks; nothing here looks for a redex by itself.

Whether a node is a redex depends on the node and its children alone, so a step can make
the parent of its position a redex and leaves all other nodes outside it as they were.
-/

namespace Contractum

/-- The two kinds of redexes. -/
inductive RedexKind where
  | beta
  | arithmetic
deriving DecidableEq, Repr

namespace RedexKind

/-- The name of a kind in a listing. -/
def label : RedexKind → String
  | beta => "beta"
  | arithmetic => "arithmetic"

/-- The symbol of the rule that contracts a redex of this kind. -/
def rule : RedexKind → String
  | beta => "β"
  | arithmetic => "δ"

end RedexKind

/-- The reasons why a step is refused. -/
inductive StepFault where
  | notRedex (form : String)
  | divisionByZero (dividend : Int)
deriving DecidableEq, Repr

namespace Term

/-- The kind of redex that a node is, if it is one. -/
def redexKind? : Term → Option RedexKind
  | app (lam _ _ _) _ => some .beta
  | arith _ (lit _) (lit _) => some .arithmetic
  | neg (lit _) => some .arithmetic
  | _ => none

/-- The term that a redex becomes. -/
def contract : Term → Except StepFault Term
  | app (lam param body _) arg => .ok (body.subst param arg)
  | arith op (lit m) (lit n) =>
    match op.eval? m n with
    | some k => .ok (lit k)
    | none => .error (.divisionByZero m)
  | neg (lit n) => .ok (lit (-n))
  | t => .error (.notRedex t.formName)

/-- Every redex with its path and its kind, in the order of a walk. -/
def listing (t : Term) : List (Path × Term × RedexKind) :=
  t.walk.filterMap fun entry => entry.2.redexKind?.map (entry.1, entry.2, ·)

/-- Every redex with its path, in the order of a walk. -/
def redexes (t : Term) : List (Path × RedexKind) :=
  t.walk.filterMap fun entry => entry.2.redexKind?.map (entry.1, ·)

/-- Contracts the subterm at a path. A path that leads nowhere changes nothing. -/
def contractAt (t : Term) (path : Path) : Except StepFault Term :=
  match t.get? path with
  | some redex => redex.contract.map (t.replaceAt path)
  | none => .ok t

theorem contract_eq_notRedex_iff {t : Term} :
    t.contract = .error (.notRedex t.formName) ↔ t.redexKind? = none := by
  unfold contract redexKind?
  split <;> simp_all
  split <;> simp

/-- A successful step replaces the subterm at its path by what it becomes, if there is one. -/
theorem contractAt_eq_ok_iff {t u : Term} {path : Path} :
    t.contractAt path = .ok u ↔
      t.get? path = none ∧ u = t ∨
        ∃ redex v, t.get? path = some redex ∧ redex.contract = .ok v ∧ u = t.replaceAt path v := by
  rw [contractAt]
  cases hredex : t.get? path with
  | none => simp [eq_comm]
  | some redex =>
      cases hcontract : redex.contract with
      | error fault => simp [hcontract, Except.map]
      | ok v => simp [hcontract, Except.map, eq_comm]

end Term

end Contractum
