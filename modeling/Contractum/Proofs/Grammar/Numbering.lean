import Contractum.Term.Name
import Contractum.Term.Parser

/-!
# Numbering binders

Binders are numbered in pre-order, a `let` before its value and the value before the body.
A variable gets the number of the innermost binder of its name in whose scope it lies, so
the numbers of a term are determined by its names.
-/

namespace Contractum.Term

/-- The number of binders. -/
@[simp] def binders : Term → Nat
  | var _ _ | constr _ | lit _ => 0
  | lam _ body _ => body.binders + 1
  | letIn _ value body _ => value.binders + body.binders + 1
  | app fn arg => fn.binders + arg.binders
  | arith _ left right => left.binders + right.binders
  | neg operand => operand.binders

/-- The term with its binders numbered from `n` on in pre-order, and each variable with the
number of its binder, there or in the scope. -/
@[simp] def numberFrom (n : Nat) (scope : Scope) : Term → Term
  | var x _ => var x ((scope.lookup x).getD none)
  | constr c => constr c
  | lit k => lit k
  | lam x body _ => lam x (body.numberFrom (n + 1) ((x, some n) :: scope)) (some n)
  | letIn x value body _ =>
    letIn x (value.numberFrom (n + 1) scope)
      (body.numberFrom (n + 1 + value.binders) ((x, some n) :: scope)) (some n)
  | app fn arg => app (fn.numberFrom n scope) (arg.numberFrom (n + fn.binders) scope)
  | arith op left right =>
    arith op (left.numberFrom n scope) (right.numberFrom (n + left.binders) scope)
  | neg operand => neg (operand.numberFrom n scope)

/-- The term with its binders numbered from zero on. -/
def numbered (t : Term) : Term :=
  t.numberFrom 0 []

/-- Every free name is the name of a binder in scope. -/
def ScopedIn (scope : Scope) (t : Term) : Prop :=
  ∀ x, t.isFree x = true → (scope.lookup x).isSome = true

variable {x : String} {id : Option Int} {scope : Scope} {t : Term}

@[simp] theorem eraseIds_numberFrom (n : Nat) (scope : Scope) (t : Term) :
    (t.numberFrom n scope).eraseIds = t.eraseIds := by
  induction t generalizing n scope with
  | var | constr | lit => rfl
  | lam x body id ih => rw [numberFrom, eraseIds, eraseIds, ih]
  | letIn x value body id ihv ihb => rw [numberFrom, eraseIds, eraseIds, ihv, ihb]
  | app fn arg ihf iha => rw [numberFrom, eraseIds, eraseIds, ihf, iha]
  | arith op left right ihl ihr => rw [numberFrom, eraseIds, eraseIds, ihl, ihr]
  | neg operand ih => rw [numberFrom, eraseIds, eraseIds, ih]

@[simp] theorem binders_eraseIds (t : Term) : t.eraseIds.binders = t.binders := by
  induction t <;> simp_all [eraseIds, binders]

/-- Numbering depends on no number that was there before. -/
theorem numberFrom_eraseIds (n : Nat) (scope : Scope) (t : Term) :
    t.eraseIds.numberFrom n scope = t.numberFrom n scope := by
  induction t generalizing n scope with
  | var | constr | lit => rfl
  | lam x body id ih => rw [eraseIds, numberFrom, numberFrom, ih]
  | letIn x value body id ihv ihb =>
      rw [eraseIds, numberFrom, numberFrom, ihv, ihb, binders_eraseIds]
  | app fn arg ihf iha => rw [eraseIds, numberFrom, numberFrom, ihf, iha, binders_eraseIds]
  | arith op left right ihl ihr => rw [eraseIds, numberFrom, numberFrom, ihl, ihr, binders_eraseIds]
  | neg operand ih => rw [eraseIds, numberFrom, numberFrom, ih]

theorem scopedIn_var_iff : ScopedIn scope (var x id) ↔ (scope.lookup x).isSome = true := by
  constructor
  · intro h
    exact h x (beq_self_eq_true x)
  · intro h y hy
    rwa [← eq_of_beq hy]

/-- A binder brings its name into scope. -/
theorem scopedIn_cons_iff {i : Option Int} :
    ScopedIn ((x, i) :: scope) t ↔
      ∀ y, x ≠ y → t.isFree y = true → (scope.lookup y).isSome = true := by
  constructor
  · intro h y hxy hy
    have hlookup := h y hy
    rwa [List.lookup_cons, (beq_eq_false_iff_ne).mpr hxy.symm] at hlookup
  · intro h y hy
    rw [List.lookup_cons]
    cases hyx : y == x with
    | true => rfl
    | false => exact h y (beq_eq_false_iff_ne.mp hyx).symm hy

theorem scopedIn_lam_iff {i : Option Int} :
    ScopedIn scope (lam x t id) ↔ ScopedIn ((x, i) :: scope) t := by
  rw [scopedIn_cons_iff]
  constructor
  · intro h y hxy hy
    exact h y (isFree_lam_iff.mpr ⟨hxy, hy⟩)
  · intro h y hy
    obtain ⟨hxy, hy⟩ := isFree_lam_iff.mp hy
    exact h y hxy hy

theorem scopedIn_letIn_iff {value : Term} {i : Option Int} :
    ScopedIn scope (letIn x value t id) ↔ ScopedIn scope value ∧ ScopedIn ((x, i) :: scope) t := by
  rw [scopedIn_cons_iff]
  constructor
  · intro h
    constructor
    · intro y hy
      exact h y (isFree_letIn_iff.mpr (.inl hy))
    · intro y hxy hy
      exact h y (isFree_letIn_iff.mpr (.inr ⟨hxy, hy⟩))
  · rintro ⟨hvalue, hbody⟩ y hy
    rcases isFree_letIn_iff.mp hy with hy | ⟨hxy, hy⟩
    · exact hvalue y hy
    · exact hbody y hxy hy

theorem scopedIn_app_iff {fn arg : Term} :
    ScopedIn scope (app fn arg) ↔ ScopedIn scope fn ∧ ScopedIn scope arg := by
  constructor
  · intro h
    constructor
    · intro y hy
      exact h y (isFree_app_iff.mpr (.inl hy))
    · intro y hy
      exact h y (isFree_app_iff.mpr (.inr hy))
  · rintro ⟨hfn, harg⟩ y hy
    exact (isFree_app_iff.mp hy).elim (hfn y) (harg y)

theorem scopedIn_arith_iff {op : Op} {left right : Term} :
    ScopedIn scope (arith op left right) ↔ ScopedIn scope left ∧ ScopedIn scope right := by
  constructor
  · intro h
    constructor
    · intro y hy
      exact h y (isFree_arith_iff.mpr (.inl hy))
    · intro y hy
      exact h y (isFree_arith_iff.mpr (.inr hy))
  · rintro ⟨hleft, hright⟩ y hy
    exact (isFree_arith_iff.mp hy).elim (hleft y) (hright y)

/-- Only closed terms are in scope where nothing is. -/
theorem scopedIn_nil_iff : ScopedIn [] t ↔ ∀ x, ¬ t.isFree x = true := by
  constructor
  · intro h x hx
    exact Bool.false_ne_true (h x hx)
  · intro h x hx
    exact absurd hx (h x)

end Contractum.Term
