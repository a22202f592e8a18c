import Contractum.Proofs.Grammar.Numbering
import Contractum.Term.Binder

/-!
# Resolved terms

A term is resolved in a scope when each of its variables carries the number that its name
has there, under the binders on the way to the variable. In the empty scope this says that
no variable is free and that each has the number of its binder. Scopes are carried along so
that the parts of a resolved term are resolved, and steps can be followed under binders.
-/

namespace Contractum.Term

/-- Every variable carries a number, the one of the innermost binder of its name. -/
@[simp] def Resolved (scope : Scope) : Term → Prop
  | var x id => ∃ k : Int, id = some k ∧ scope.lookup x = some (some k)
  | constr _ | lit _ => True
  | lam x body id => Resolved ((x, id) :: scope) body
  | letIn x value body id => Resolved scope value ∧ Resolved ((x, id) :: scope) body
  | app fn arg => Resolved scope fn ∧ Resolved scope arg
  | arith _ left right => Resolved scope left ∧ Resolved scope right
  | neg operand => Resolved scope operand

variable {x y : String} {id : Option Int} {scope inner : Scope} {t c u : Term}

theorem lookup_cons_of_ne (h : y ≠ x) :
    List.lookup y ((x, id) :: scope) = scope.lookup y := by
  rw [List.lookup_cons, beq_eq_false_iff_ne.mpr h]

/-- A binder hides what its name means outside. -/
theorem lookup_cons_congr (hsame : y ≠ x → inner.lookup y = scope.lookup y) :
    List.lookup y ((x, id) :: inner) = List.lookup y ((x, id) :: scope) := by
  by_cases hyx : y = x
  · rw [hyx, List.lookup_cons_self, List.lookup_cons_self]
  · rw [lookup_cons_of_ne hyx, lookup_cons_of_ne hyx, hsame hyx]

/-- A resolved term refers to nothing outside its scope. -/
theorem Resolved.scopedIn (h : Resolved scope t) : t.ScopedIn scope := by
  induction t generalizing scope with
  | var x id =>
      obtain ⟨k, -, hlookup⟩ := h
      rw [scopedIn_var_iff, hlookup]
      rfl
  | constr | lit =>
      intro x hx
      exact absurd hx Bool.false_ne_true
  | lam x body id ih => exact scopedIn_lam_iff.mpr (ih h)
  | letIn x value body id ihv ihb => exact scopedIn_letIn_iff.mpr ⟨ihv h.1, ihb h.2⟩
  | app fn arg ihf iha => exact scopedIn_app_iff.mpr ⟨ihf h.1, iha h.2⟩
  | arith op left right ihl ihr => exact scopedIn_arith_iff.mpr ⟨ihl h.1, ihr h.2⟩
  | neg operand ih => exact ih h

/-- Only what a scope says of the free names matters. -/
theorem Resolved.congr (h : Resolved scope t)
    (hsame : ∀ y, t.isFree y = true → inner.lookup y = scope.lookup y) : Resolved inner t := by
  induction t generalizing scope inner with
  | var x id =>
      obtain ⟨k, hid, hlookup⟩ := h
      exact ⟨k, hid, (hsame x (beq_self_eq_true x)).trans hlookup⟩
  | constr => trivial
  | lit => trivial
  | lam x body id ih =>
      apply ih h
      intro y hy
      apply lookup_cons_congr
      intro hyx
      exact hsame y (isFree_lam_iff.mpr ⟨Ne.symm hyx, hy⟩)
  | letIn x value body id ihv ihb =>
      refine ⟨ihv h.1 ?_, ihb h.2 ?_⟩
      · intro y hy
        exact hsame y (isFree_letIn_iff.mpr (.inl hy))
      · intro y hy
        apply lookup_cons_congr
        intro hyx
        exact hsame y (isFree_letIn_iff.mpr (.inr ⟨Ne.symm hyx, hy⟩))
  | app fn arg ihf iha =>
      refine ⟨ihf h.1 ?_, iha h.2 ?_⟩
      · intro y hy
        exact hsame y (isFree_app_iff.mpr (.inl hy))
      · intro y hy
        exact hsame y (isFree_app_iff.mpr (.inr hy))
  | arith op left right ihl ihr =>
      refine ⟨ihl h.1 ?_, ihr h.2 ?_⟩
      · intro y hy
        exact hsame y (isFree_arith_iff.mpr (.inl hy))
      · intro y hy
        exact hsame y (isFree_arith_iff.mpr (.inr hy))
  | neg operand ih => exact ih h hsame

/-- Under a binder only what a scope says of the other free names matters. -/
theorem Resolved.congr_cons (h : Resolved ((x, id) :: scope) t)
    (hsame : ∀ y, y ≠ x → t.isFree y = true → inner.lookup y = scope.lookup y) :
    Resolved ((x, id) :: inner) t := by
  apply h.congr
  intro y hy
  apply lookup_cons_congr
  intro hyx
  exact hsame y hyx hy

/-- The scope of a child: that of the node, with its binder where the child is in its scope. -/
@[simp] def childScope (scope : Scope) : Term → Nat → Scope
  | lam x _ id, 0 => (x, id) :: scope
  | letIn x _ _ id, 1 => (x, id) :: scope
  | _, _ => scope

/-- A child is resolved in its scope, and can be replaced by any other term that is. -/
theorem Resolved.child {i : Nat} (h : Resolved scope t) (hchild : t.child? i = some c) :
    Resolved (t.childScope scope i) c ∧
      ∀ u, Resolved (t.childScope scope i) u → Resolved scope (t.setChild i u) := by
  cases child?_eq_some_iff.mp hchild with
  | body | operand => exact ⟨h, fun u hu => hu⟩
  | letValue | fn | left => exact ⟨h.1, fun u hu => ⟨hu, h.2⟩⟩
  | letBody | arg | right => exact ⟨h.2, fun u hu => ⟨h.1, hu⟩⟩

/-- A node that binds a name in a child decides what the name means there. -/
theorem lookup_childScope_of_bindsIn {i : Nat} (h : t.bindsIn x i = true) :
    ∃ id, t.binding? = some (x, id) ∧ (t.childScope scope i).lookup x = some id := by
  cases t with
  | lam y body id =>
      obtain ⟨rfl, rfl⟩ : y = x ∧ i = 0 := by simpa [bindsIn] using h
      exact ⟨id, rfl, List.lookup_cons_self⟩
  | letIn y value body id =>
      obtain ⟨rfl, rfl⟩ : y = x ∧ i = 1 := by simpa [bindsIn] using h
      exact ⟨id, rfl, List.lookup_cons_self⟩
  | var | constr | lit | app | arith | neg => cases h

/-- All other names mean to a child what they mean to the node. -/
theorem lookup_childScope_of_not_bindsIn {i : Nat} (h : t.bindsIn x i = false) :
    (t.childScope scope i).lookup x = scope.lookup x := by
  cases t with
  | lam y body id =>
      match i with
      | 0 =>
          have hne : y ≠ x := by simpa [bindsIn] using h
          exact lookup_cons_of_ne hne.symm
      | i + 1 => rfl
  | letIn y value body id =>
      match i with
      | 0 => rfl
      | 1 =>
          have hne : y ≠ x := by simpa [bindsIn] using h
          exact lookup_cons_of_ne hne.symm
      | i + 2 => rfl
  | var | constr | lit | app | arith | neg => rfl

/-- A variable of a resolved term has the number of the innermost binder of its name above it,
or of its name in the scope when there is none. -/
theorem Resolved.binderAbove? {path : Path} (h : Resolved scope t)
    (hget : t.get? path = some (var x id)) :
    ∃ k : Int, id = some k ∧
      match t.binderAbove? x path with
      | some above => ∃ node, t.get? above = some node ∧ node.binding? = some (x, some k)
      | none => scope.lookup x = some (some k) := by
  induction path generalizing t scope with
  | nil =>
      rw [get?_nil, Option.some_inj] at hget
      subst hget
      exact h
  | cons i path ih =>
      obtain ⟨c, hc, hget⟩ := Option.bind_eq_some_iff.mp hget
      obtain ⟨k, hid, habove⟩ := ih (h.child hc).1 hget
      refine ⟨k, hid, ?_⟩
      rw [Term.binderAbove?, hc, Option.bind_some]
      cases hfound : c.binderAbove? x path with
      | some above =>
          rw [hfound] at habove
          obtain ⟨node, hnode, hbinding⟩ := habove
          exact ⟨node, by rw [get?, hc, Option.bind_some, hnode], hbinding⟩
      | none =>
          rw [hfound] at habove
          cases hbinds : t.bindsIn x i with
          | true =>
              obtain ⟨id', hbinding, hlookup⟩ := lookup_childScope_of_bindsIn hbinds
              rw [hlookup, Option.some_inj] at habove
              exact ⟨t, get?_nil t, habove ▸ hbinding⟩
          | false =>
              rw [lookup_childScope_of_not_bindsIn hbinds] at habove
              exact habove

/-- In a resolved closed term every variable has a binder, and its number. -/
theorem Resolved.binderOf? {path : Path} (h : Resolved [] t)
    (hget : t.get? path = some (var x id)) :
    ∃ (k : Int) (above : Path) (node : Term), id = some k ∧ t.binderOf? path = some above ∧
      t.get? above = some node ∧ node.binding? = some (x, some k) := by
  obtain ⟨k, hid, habove⟩ := h.binderAbove? hget
  rw [Term.binderOf?, hget]
  cases hfound : t.binderAbove? x path with
  | some above =>
      rw [hfound] at habove
      obtain ⟨node, hnode, hbinding⟩ := habove
      exact ⟨k, above, node, hid, hfound, hnode, hbinding⟩
  | none =>
      rw [hfound] at habove
      cases habove

/-- Whether all names in scope have numbered binders. -/
def NumberedScope (scope : Scope) : Prop :=
  ∀ x id, scope.lookup x = some id → ∃ k : Int, id = some k

theorem NumberedScope.cons (h : NumberedScope scope) (x : String) (k : Int) :
    NumberedScope ((x, some k) :: scope) := by
  intro y id hlookup
  by_cases hyx : y = x
  · rw [hyx, List.lookup_cons_self, Option.some_inj] at hlookup
    exact ⟨k, hlookup.symm⟩
  · rw [lookup_cons_of_ne hyx] at hlookup
    exact h y id hlookup

/-- Numbering resolves a term wherever the names in scope are numbered. -/
theorem resolved_numberFrom {n : Nat} (hscoped : t.ScopedIn scope)
    (hnumbered : NumberedScope scope) : Resolved scope (t.numberFrom n scope) := by
  induction t generalizing n scope with
  | var x id =>
      obtain ⟨id, hid⟩ := Option.isSome_iff_exists.mp (scopedIn_var_iff.mp hscoped)
      obtain ⟨k, rfl⟩ := hnumbered x id hid
      exact ⟨k, by rw [hid]; rfl, hid⟩
  | constr => trivial
  | lit => trivial
  | lam x body id ih => exact ih (scopedIn_lam_iff.mp hscoped) (hnumbered.cons x n)
  | letIn x value body id ihv ihb =>
      obtain ⟨hvalue, hbody⟩ := scopedIn_letIn_iff.mp hscoped
      exact ⟨ihv hvalue hnumbered, ihb hbody (hnumbered.cons x n)⟩
  | app fn arg ihf iha =>
      obtain ⟨hfn, harg⟩ := scopedIn_app_iff.mp hscoped
      exact ⟨ihf hfn hnumbered, iha harg hnumbered⟩
  | arith op left right ihl ihr =>
      obtain ⟨hleft, hright⟩ := scopedIn_arith_iff.mp hscoped
      exact ⟨ihl hleft hnumbered, ihr hright hnumbered⟩
  | neg operand ih => exact ih hscoped hnumbered

/-- A numbered closed term is resolved. -/
theorem resolved_numbered (hclosed : t.ScopedIn []) : Resolved [] t.numbered := by
  have hempty : NumberedScope [] := by
    intro x id hlookup
    cases hlookup
  exact resolved_numberFrom hclosed hempty

end Contractum.Term
