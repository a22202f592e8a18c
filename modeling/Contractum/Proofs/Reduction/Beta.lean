import Mathlib.Control.Monad.Basic
import Contractum.Proofs.Nameless.Substitution
import Contractum.Term.Parser
import Contractum.Term.Redex

/-!
# Beta steps on nameless forms

A step at a path changes the nameless form at that path and nowhere else, below binders
too. So a beta step is a beta step of nameless forms exactly when its substitution is
right, which it is unless the substitution clashes.

Clashes do occur in programs: names with primes may be written, and steps create them.
-/

namespace Contractum.Term

variable {t c u : Term} {path : Path}

/-- What replaces a child is seen from the parent through the binders of the parent alone. -/
theorem exists_scope_setChild {i : Nat} (h : t.child? i = some c) (scope : List String) :
    ∃ inner, ∀ (f : Nameless → Nameless) (path : Path) (u : Term),
      (t.setChild i u).namelessUnder scope = (t.namelessUnder scope).modifyAt f (i :: path) ↔
        u.namelessUnder inner = (c.namelessUnder inner).modifyAt f path := by
  cases child?_eq_some_iff.mp h with
  | body param =>
      refine ⟨param :: scope, ?_⟩
      intro f path u
      simp [setChild, namelessUnder, Nameless.modifyAt]
  | letBody name =>
      refine ⟨name :: scope, ?_⟩
      intro f path u
      simp [setChild, namelessUnder, Nameless.modifyAt]
  | letValue | fn | arg | left | right | operand =>
      refine ⟨scope, ?_⟩
      intro f path u
      simp [setChild, namelessUnder, Nameless.modifyAt]

/-- What replaces a subterm is seen from the root through the binders on its path alone. -/
theorem exists_scope_replaceAt (h : t.get? path = some c) (scope : List String) :
    ∃ inner, ∀ (f : Nameless → Nameless) (u : Term),
      (t.replaceAt path u).namelessUnder scope = (t.namelessUnder scope).modifyAt f path ↔
        u.namelessUnder inner = f (c.namelessUnder inner) := by
  induction path generalizing t scope with
  | nil =>
      rw [get?_nil, Option.some_inj] at h
      subst h
      refine ⟨scope, ?_⟩
      intro f u
      rw [replaceAt_nil, Nameless.modifyAt]
  | cons i path ih =>
      obtain ⟨d, hd, hget⟩ := Option.bind_eq_some_iff.mp h
      obtain ⟨middle, hmiddle⟩ := exists_scope_setChild hd scope
      obtain ⟨inner, hinner⟩ := ih hget middle
      refine ⟨inner, ?_⟩
      intro f u
      simp only [replaceAt, hd]
      rw [hmiddle, hinner]

/-- Below any binders, contracting a function puts the argument for the name it binds. -/
theorem beta_namelessUnder (x : String) (body arg : Term) (id : Option Int) (scope : List String) :
    ((app (lam x body id) arg).namelessUnder scope).beta =
      (body.nameless.substFree x arg.nameless).enclose 0 scope := by
  rw [namelessUnder, namelessUnder, Nameless.beta, namelessUnder_eq_enclose (x :: scope),
    namelessUnder_eq_enclose scope arg]
  exact Nameless.instantiate_enclose (closedAt_nameless body) (closedAt_nameless arg)

/-- A function applied to an argument can always be contracted, at every place in a term, and
the whole term becomes the one in which that place of the nameless form is contracted,
exactly when putting the argument into the body does not clash. -/
theorem nameless_contractAt_beta_iff {x : String} {body arg : Term} {id : Option Int}
    (h : t.get? path = some (app (lam x body id) arg)) :
    ∃ u, t.contractAt path = .ok u ∧
      (u.nameless = t.nameless.modifyAt Nameless.beta path ↔ ¬ body.Clashes x arg) := by
  obtain ⟨inner, hinner⟩ := exists_scope_replaceAt h []
  refine ⟨t.replaceAt path (body.subst x arg), ?_, ?_⟩
  · simp only [contractAt, h, contract, Except.map]
  · rw [nameless, nameless, hinner, beta_namelessUnder, namelessUnder_eq_enclose,
      Nameless.enclose_inj (closedAt_nameless _)
        (Nameless.closedAt_substFree (closedAt_nameless _) (closedAt_nameless _))]
    exact nameless_subst_iff body x arg

/-- The term `\y -> (\x -> \y -> x) y`, in which the inner `y` would catch the outer one. -/
def catching : Term :=
  lam "y" (app (lam "x" (lam "y" (var "x" (some 1)) (some 2)) (some 1)) (var "y" (some 0))) (some 0)

/-- Nothing clashes there, since the inner `y` becomes `y'` and is not what is put in: the step
gives a function that returns the outer `y`. -/
theorem nameless_contractAt_catching :
    catching.get? [0] =
        some (app (lam "x" (lam "y" (var "x" (some 1)) (some 2)) (some 1)) (var "y" (some 0))) ∧
      ¬ (lam "y" (var "x" (some 1)) (some 2)).Clashes "x" (var "y" (some 0)) ∧
      ∃ u, catching.contractAt [0] = .ok u ∧
        u.nameless = catching.nameless.modifyAt Nameless.beta [0] ∧
        u.nameless = .lam (.lam (.bound 1)) := by
  have hclash : ¬ (lam "y" (var "x" (some 1)) (some 2)).Clashes "x" (var "y" (some 0)) := by
    simp [Clashes]
  have hget : catching.get? [0] =
      some (app (lam "x" (lam "y" (var "x" (some 1)) (some 2)) (some 1)) (var "y" (some 0))) := rfl
  obtain ⟨u, hu, hright⟩ := nameless_contractAt_beta_iff hget
  have hbeta := hright.mpr hclash
  exact ⟨hget, hclash, u, hu, hbeta, hbeta.trans (by decide)⟩

/-- The term `\y -> (\y' -> \y -> y) y`. Its inner `y` becomes `y'` although nothing is to be
put below it, and then is taken for the `y'` of the function. -/
def clashing : Term :=
  lam "y" (app (lam "y'" (lam "y" (var "y" (some 2)) (some 2)) (some 1)) (var "y" (some 0)))
    (some 0)

/-- A clash in a term as it is read: the contracted function returns the identity, and after
the step the constant function stands there. -/
theorem contractAt_clashing :
    parse "\\y -> (\\y' -> \\y -> y) y" = .ok clashing ∧ ([0], .beta) ∈ clashing.redexes ∧
      clashing.nameless.modifyAt Nameless.beta [0] = .lam (.lam (.bound 0)) ∧
      ∃ u, clashing.contractAt [0] = .ok u ∧ u.nameless = .lam (.lam (.bound 1)) := by
  refine ⟨by decide +kernel, by decide, by decide, ?_⟩
  refine ⟨lam "y" (lam "y'" (var "y" (some 0)) (some 2)) (some 0), ?_, ?_⟩
  · decide +kernel
  · decide

end Contractum.Term
