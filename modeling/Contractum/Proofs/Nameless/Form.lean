import Contractum.Proofs.Nameless.Basic
import Contractum.Term.Name

/-!
# Nameless forms of terms

The nameless form resolves every variable against the names of the binders around it, the
innermost first. Behind further binders it is enclosed in them, so most facts are needed
for a term on its own only, where all its free names are kept.

Renaming free occurrences to a name that is new to the term is substitution of a free
name. Names of binders and of bound occurrences are not part of the form at all.
-/

namespace Contractum.Term

/-- The nameless form below binders of the given names, the innermost first. -/
@[simp] def namelessUnder (scope : List String) : Term → Nameless
  | var x _ =>
    match scope.idxOf? x with
    | some i => .bound i
    | none => .free x
  | constr c => .constr c
  | lit n => .lit n
  | lam param body _ => .lam (body.namelessUnder (param :: scope))
  | letIn name value body _ =>
    .letIn (value.namelessUnder scope) (body.namelessUnder (name :: scope))
  | app fn arg => .app (fn.namelessUnder scope) (arg.namelessUnder scope)
  | arith op left right => .arith op (left.namelessUnder scope) (right.namelessUnder scope)
  | neg operand => .neg (operand.namelessUnder scope)

/-- The nameless form of a term on its own. -/
def nameless (t : Term) : Nameless :=
  t.namelessUnder []

variable {x y z : String} {scope : List String} {t : Term}

/-- Binders further outside enclose the form. -/
theorem namelessUnder_append (inner outer : List String) (t : Term) :
    t.namelessUnder (inner ++ outer) = (t.namelessUnder inner).enclose inner.length outer := by
  induction t generalizing inner with
  | var x id =>
      have hsplit : (inner ++ outer).idxOf? x =
          (inner.idxOf? x).or ((outer.idxOf? x).map (· + inner.length)) := by
        simp only [List.idxOf?, List.findIdx?_append]
      rw [namelessUnder, namelessUnder, hsplit]
      cases inner.idxOf? x with
      | some i => rfl
      | none =>
          cases hidx : outer.idxOf? x with
          | some i => simp [Nameless.enclose, hidx]
          | none => simp [Nameless.enclose, hidx]
  | constr => rfl
  | lit => rfl
  | lam param body id ih =>
      rw [namelessUnder, namelessUnder, Nameless.enclose, ← List.cons_append, ih, List.length_cons]
  | letIn name value body id ihv ihb =>
      rw [namelessUnder, namelessUnder, Nameless.enclose, ← List.cons_append, ihv, ihb,
        List.length_cons]
  | app fn arg ihf iha => rw [namelessUnder, namelessUnder, Nameless.enclose, ihf, iha]
  | arith op left right ihl ihr => rw [namelessUnder, namelessUnder, Nameless.enclose, ihl, ihr]
  | neg operand ih => rw [namelessUnder, namelessUnder, Nameless.enclose, ih]

theorem namelessUnder_eq_enclose (scope : List String) (t : Term) :
    t.namelessUnder scope = t.nameless.enclose 0 scope :=
  namelessUnder_append [] scope t

@[simp] theorem nameless_constr (c : String) : (constr c).nameless = .constr c := rfl

@[simp] theorem nameless_lit (n : Int) : (lit n).nameless = .lit n := rfl

@[simp] theorem nameless_var (x : String) (id : Option Int) : (var x id).nameless = .free x := rfl

@[simp] theorem nameless_lam (param : String) (body : Term) (id : Option Int) :
    (lam param body id).nameless = .lam (body.nameless.enclose 0 [param]) := by
  rw [nameless, namelessUnder, namelessUnder_eq_enclose]

@[simp] theorem nameless_letIn (name : String) (value body : Term) (id : Option Int) :
    (letIn name value body id).nameless =
      .letIn value.nameless (body.nameless.enclose 0 [name]) := by
  rw [nameless, namelessUnder, namelessUnder_eq_enclose [name]]
  rfl

@[simp] theorem nameless_app (fn arg : Term) :
    (app fn arg).nameless = .app fn.nameless arg.nameless := rfl

@[simp] theorem nameless_arith (op : Op) (left right : Term) :
    (arith op left right).nameless = .arith op left.nameless right.nameless := rfl

@[simp] theorem nameless_neg (operand : Term) :
    (neg operand).nameless = .neg operand.nameless := rfl

/-- All indices of a form count binders of the term or of its scope. -/
theorem closedAt_namelessUnder (scope : List String) (t : Term) :
    (t.namelessUnder scope).ClosedAt scope.length := by
  induction t generalizing scope with
  | var x id =>
      cases hidx : scope.idxOf? x with
      | some i =>
          obtain ⟨hi, -⟩ := List.idxOf?_eq_some_iff.mp hidx
          simp only [namelessUnder, hidx]
          exact hi
      | none => simp only [namelessUnder, hidx, Nameless.ClosedAt]
  | constr => trivial
  | lit => trivial
  | lam param body id ih => exact ih (param :: scope)
  | letIn name value body id ihv ihb => exact ⟨ihv scope, ihb (name :: scope)⟩
  | app fn arg ihf iha => exact ⟨ihf scope, iha scope⟩
  | arith op left right ihl ihr => exact ⟨ihl scope, ihr scope⟩
  | neg operand ih => exact ih scope

theorem closedAt_nameless (t : Term) : t.nameless.ClosedAt 0 :=
  closedAt_namelessUnder [] t

/-- The free names of a term and of its form are the same. -/
@[simp] theorem hasFree_nameless : t.nameless.HasFree x ↔ t.isFree x = true := by
  induction t with
  | var y id => simp [isFree, Nameless.HasFree]
  | constr => simp [isFree, Nameless.HasFree]
  | lit => simp [isFree, Nameless.HasFree]
  | lam param body id ih =>
      simp [isFree, Nameless.HasFree, Nameless.hasFree_enclose, ih, and_comm, ne_comm]
  | letIn name value body id ihv ihb =>
      simp [isFree, Nameless.HasFree, Nameless.hasFree_enclose, ihv, ihb, and_comm, ne_comm]
  | app fn arg ihf iha => simp [isFree, Nameless.HasFree, ihf, iha]
  | arith op left right ihl ihr => simp [isFree, Nameless.HasFree, ihl, ihr]
  | neg operand ih => simpa [isFree, Nameless.HasFree] using ih

/-- Below a binder of the substituted name nothing is substituted. -/
theorem substFree_enclose_self (x : String) (t : Term) (r : Nameless) :
    (t.nameless.enclose 0 [x]).substFree x r = t.nameless.enclose 0 [x] := by
  apply Nameless.substFree_of_not_hasFree
  rw [Nameless.hasFree_enclose]
  intro h
  exact h.2 (List.mem_singleton.mpr rfl)

/-- Below a binder of another name than the new one, renaming is substitution if it is on the
scope alone, and a binder of the old name stops both. -/
theorem enclose_rename_scope {w : String} {body : Term} (hyw : y ≠ w)
    (h : (body.rename x y).nameless = body.nameless.substFree x (.free y)) :
    (if w = x then body else body.rename x y).nameless.enclose 0 [w] =
      (body.nameless.enclose 0 [w]).substFree x (.free y) := by
  by_cases hwx : w = x
  · subst hwx
    rw [if_pos rfl, substFree_enclose_self]
  · rw [if_neg hwx, h]
    apply Nameless.enclose_substFree
    · intro hx
      exact hwx (List.mem_singleton.mp hx).symm
    · intro z hz hfree
      exact hyw (Eq.trans hfree (List.mem_singleton.mp hz))

/-- Renaming to a name that is new to the term substitutes it for the old one. -/
theorem nameless_rename (h : y ∉ t.names) :
    (t.rename x y).nameless = t.nameless.substFree x (.free y) := by
  induction t with
  | var z id =>
      by_cases hzx : z = x
      · simp [rename, Nameless.substFree, hzx]
      · simp [rename, Nameless.substFree, hzx]
  | constr => rfl
  | lit => rfl
  | lam param body id ih =>
      rw [names, List.mem_cons, not_or] at h
      rw [rename, nameless_lam, nameless_lam, Nameless.substFree,
        enclose_rename_scope h.1 (ih h.2)]
  | letIn name value body id ihv ihb =>
      rw [names, List.mem_cons, List.mem_append, not_or, not_or] at h
      rw [rename, nameless_letIn, nameless_letIn, Nameless.substFree, ihv h.2.1,
        enclose_rename_scope h.1 (ihb h.2.2)]
  | app fn arg ihf iha =>
      rw [names, List.mem_append, not_or] at h
      rw [rename, nameless_app, nameless_app, Nameless.substFree, ihf h.1, iha h.2]
  | arith op left right ihl ihr =>
      rw [names, List.mem_append, not_or] at h
      rw [rename, nameless_arith, nameless_arith, Nameless.substFree, ihl h.1, ihr h.2]
  | neg operand ih => rw [rename, nameless_neg, nameless_neg, Nameless.substFree, ih h]

theorem isFree_rename (h : y ∉ t.names) :
    (t.rename x y).isFree z = true ↔ z ≠ x ∧ t.isFree z = true ∨ t.isFree x = true ∧ y = z := by
  rw [← hasFree_nameless, nameless_rename h, Nameless.hasFree_substFree, hasFree_nameless,
    hasFree_nameless]
  rfl

/-- A binder with its occurrences can take any name that is new to its scope. -/
theorem enclose_nameless_rename (h : y ∉ t.names) :
    (t.rename x y).nameless.enclose 0 [y] = t.nameless.enclose 0 [x] := by
  rw [nameless_rename h]
  apply Nameless.enclose_rename
  rw [hasFree_nameless]
  intro hfree
  exact h (mem_names_of_isFree hfree)

end Contractum.Term
