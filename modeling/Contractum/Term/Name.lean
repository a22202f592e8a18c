import Contractum.Term.Basic

/-!
# Names in a term

A name is free in a term where a variable bears it outside every binder of that name;
the value of a `let` lies outside the binder. Renaming moves the free occurrences of a
name to another name, and a binder is renamed together with the occurrences it binds.

A fresh name is the old one followed by primes, by the fewest that make it new to the
scope of the binder and not free in the term that is about to move under the binder.
-/

namespace Contractum.Term

/-- The mark that is appended to a name to make a new one. -/
def prime : String := "'"

/-- Whether some variable of this name is bound by no binder of the term. -/
@[simp] def isFree (x : String) : Term → Bool
  | var name _ => name == x
  | constr _ | lit _ => false
  | lam param body _ => param != x && body.isFree x
  | letIn name value body _ => value.isFree x || (name != x && body.isFree x)
  | app fn arg => fn.isFree x || arg.isFree x
  | arith _ left right => left.isFree x || right.isFree x
  | neg operand => operand.isFree x

/-- The free names, once for every free occurrence. -/
@[simp] def freeNames : Term → List String
  | var name _ => [name]
  | constr _ | lit _ => []
  | lam param body _ => body.freeNames.filter (· != param)
  | letIn name value body _ => value.freeNames ++ body.freeNames.filter (· != name)
  | app fn arg => fn.freeNames ++ arg.freeNames
  | arith _ left right => left.freeNames ++ right.freeNames
  | neg operand => operand.freeNames

/-- The names of all variables and binders. -/
@[simp] def names : Term → List String
  | var name _ => [name]
  | constr _ | lit _ => []
  | lam param body _ => param :: body.names
  | letIn name value body _ => name :: (value.names ++ body.names)
  | app fn arg => fn.names ++ arg.names
  | arith _ left right => left.names ++ right.names
  | neg operand => operand.names

/-- Moves the free occurrences of `x` to the name `y`. -/
@[simp] def rename (x y : String) : Term → Term
  | var name id => var (if name = x then y else name) id
  | constr name => constr name
  | lit value => lit value
  | lam param body id => lam param (if param = x then body else body.rename x y) id
  | letIn name value body id =>
    letIn name (value.rename x y) (if name = x then body else body.rename x y) id
  | app fn arg => app (fn.rename x y) (arg.rename x y)
  | arith op left right => arith op (left.rename x y) (right.rename x y)
  | neg operand => neg (operand.rename x y)

/-- The first of `name`, `name'`, `name''`, … that is not taken, among `bound` candidates
and the one behind them. -/
@[simp] def firstUntaken (taken : List String) : Nat → String → String
  | 0, name => name
  | bound + 1, name =>
    if name ∈ taken then firstUntaken taken bound (name ++ prime) else name

/-- A name for a binder of `name` with this scope under which the replacement can be put.
The bound of the search never ends it, since no more names than that are taken. -/
def freshName (name : String) (scope replacement : Term) : String :=
  let taken := scope.names ++ replacement.freeNames
  firstUntaken taken taken.length (name ++ prime)

/-- Gives a binder a fresh name, and its scope the renamed occurrences. Terms that bind
nothing stay as they are. -/
def alphaConvert (t replacement : Term) : Term :=
  match t with
  | lam param body id =>
    let fresh := freshName param body replacement
    lam fresh (body.rename param fresh) id
  | letIn name value body id =>
    let fresh := freshName name body replacement
    letIn fresh value (body.rename name fresh) id
  | t => t

theorem isFree_iff_mem_freeNames {x : String} {t : Term} : t.isFree x = true ↔ x ∈ t.freeNames := by
  induction t with
  | var name id => simpa [isFree, freeNames] using ⟨Eq.symm, Eq.symm⟩
  | constr name => simp [isFree, freeNames]
  | lit value => simp [isFree, freeNames]
  | lam param body id ih =>
    simp only [isFree, freeNames, Bool.and_eq_true, bne_iff_ne, List.mem_filter, ih]
    exact ⟨fun h => ⟨h.2, h.1.symm⟩, fun h => ⟨h.2.symm, h.1⟩⟩
  | letIn name value body id ihv ihb =>
    simp only [isFree, freeNames, Bool.or_eq_true, Bool.and_eq_true, bne_iff_ne, List.mem_append,
      List.mem_filter, ihv, ihb]
    exact or_congr Iff.rfl ⟨fun h => ⟨h.2, h.1.symm⟩, fun h => ⟨h.2.symm, h.1⟩⟩
  | app fn arg ihf iha => simp [isFree, freeNames, ihf, iha]
  | arith op left right ihl ihr => simp [isFree, freeNames, ihl, ihr]
  | neg operand ih => simpa [isFree, freeNames] using ih

variable {x : String} {t : Term}

theorem isFree_lam_iff {param : String} {body : Term} {id : Option Int} :
    (lam param body id).isFree x = true ↔ param ≠ x ∧ body.isFree x = true := by
  simp [isFree]

theorem isFree_letIn_iff {name : String} {value body : Term} {id : Option Int} :
    (letIn name value body id).isFree x = true ↔
      value.isFree x = true ∨ name ≠ x ∧ body.isFree x = true := by
  simp [isFree]

theorem isFree_app_iff {fn arg : Term} :
    (app fn arg).isFree x = true ↔ fn.isFree x = true ∨ arg.isFree x = true := by
  simp [isFree]

theorem isFree_arith_iff {op : Op} {left right : Term} :
    (arith op left right).isFree x = true ↔ left.isFree x = true ∨ right.isFree x = true := by
  simp [isFree]

theorem isFree_eraseIds (x : String) (t : Term) : t.eraseIds.isFree x = t.isFree x := by
  induction t with
  | var | constr | lit => rfl
  | lam param body id ih => rw [eraseIds, isFree, isFree, ih]
  | letIn name value body id ihv ihb => rw [eraseIds, isFree, isFree, ihv, ihb]
  | app fn arg ihf iha => rw [eraseIds, isFree, isFree, ihf, iha]
  | arith op left right ihl ihr => rw [eraseIds, isFree, isFree, ihl, ihr]
  | neg operand ih => rw [eraseIds, isFree, isFree, ih]

theorem mem_names_of_isFree (h : t.isFree x = true) : x ∈ t.names := by
  induction t with
  | var y id => exact List.mem_singleton.mpr (eq_of_beq h).symm
  | constr => exact absurd h Bool.false_ne_true
  | lit => exact absurd h Bool.false_ne_true
  | lam param body id ih => exact List.mem_cons_of_mem _ (ih (isFree_lam_iff.mp h).2)
  | letIn name value body id ihv ihb =>
      apply List.mem_cons_of_mem
      rcases isFree_letIn_iff.mp h with hv | ⟨-, hb⟩
      · exact List.mem_append_left _ (ihv hv)
      · exact List.mem_append_right _ (ihb hb)
  | app fn arg ihf iha =>
      rcases isFree_app_iff.mp h with hf | ha
      · exact List.mem_append_left _ (ihf hf)
      · exact List.mem_append_right _ (iha ha)
  | arith op left right ihl ihr =>
      rcases isFree_arith_iff.mp h with hl | hr
      · exact List.mem_append_left _ (ihl hl)
      · exact List.mem_append_right _ (ihr hr)
  | neg operand ih => exact ih h

@[simp] theorem size_rename (x y : String) (t : Term) : (t.rename x y).size = t.size := by
  induction t with
  | var name id => rfl
  | constr name => rfl
  | lit value => rfl
  | lam param body id ih => by_cases h : param = x <;> simp [rename, size, h, ih]
  | letIn name value body id ihv ihb => by_cases h : name = x <;> simp [rename, size, h, ihv, ihb]
  | app fn arg ihf iha => simp [rename, size, ihf, iha]
  | arith op left right ihl ihr => simp [rename, size, ihl, ihr]
  | neg operand ih => simp [rename, size, ih]

end Contractum.Term
