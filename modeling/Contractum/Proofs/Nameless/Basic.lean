import Contractum.Term.Basic

/-!
# Nameless terms

A nameless term is a term whose bound occurrences count the binders between them and
their own, while free occurrences keep their names. Two named terms differ only in the
names of their binders exactly when their nameless forms are equal, so capture cannot
happen here: a free name is no index, and an index is never renamed.

`enclose` puts a nameless term under binders of given names. Nothing is lost by that on
terms without loose indices, and contracting a function is substitution of the free name
that it binds, enclosed in turn.
-/

namespace Contractum

/-- Terms without names for binders. A `let` binds in its body only. -/
inductive Nameless where
  | bound (index : Nat)
  | free (name : String)
  | constr (name : String)
  | lit (value : Int)
  | lam (body : Nameless)
  | letIn (value body : Nameless)
  | app (fn arg : Nameless)
  | arith (op : Op) (left right : Nameless)
  | neg (operand : Nameless)
deriving DecidableEq, Repr

namespace Nameless

/-- Whether a name occurs free. -/
@[simp] def HasFree (x : String) : Nameless → Prop
  | free y => y = x
  | bound _ | constr _ | lit _ => False
  | lam body => body.HasFree x
  | letIn value body => value.HasFree x ∨ body.HasFree x
  | app fn arg => fn.HasFree x ∨ arg.HasFree x
  | arith _ left right => left.HasFree x ∨ right.HasFree x
  | neg operand => operand.HasFree x

/-- No index points behind the `k` innermost enclosing binders. -/
@[simp] def ClosedAt (k : Nat) : Nameless → Prop
  | bound i => i < k
  | free _ | constr _ | lit _ => True
  | lam body => body.ClosedAt (k + 1)
  | letIn value body => value.ClosedAt k ∧ body.ClosedAt (k + 1)
  | app fn arg => fn.ClosedAt k ∧ arg.ClosedAt k
  | arith _ left right => left.ClosedAt k ∧ right.ClosedAt k
  | neg operand => operand.ClosedAt k

/-- Makes room for `d` binders behind the `k` innermost ones. -/
@[simp] def lift (d k : Nat) : Nameless → Nameless
  | bound i => bound (if i < k then i else i + d)
  | free x => free x
  | constr c => constr c
  | lit n => lit n
  | lam body => lam (body.lift d (k + 1))
  | letIn value body => letIn (value.lift d k) (body.lift d (k + 1))
  | app fn arg => app (fn.lift d k) (arg.lift d k)
  | arith op left right => arith op (left.lift d k) (right.lift d k)
  | neg operand => neg (operand.lift d k)

/-- Removes the binder behind the `k` innermost ones and puts `r` for its occurrences. -/
@[simp] def instantiate : Nameless → Nat → Nameless → Nameless
  | bound i, k, r => if i < k then bound i else if i = k then r.lift k 0 else bound (i - 1)
  | free x, _, _ => free x
  | constr c, _, _ => constr c
  | lit n, _, _ => lit n
  | lam body, k, r => lam (body.instantiate (k + 1) r)
  | letIn value body, k, r => letIn (value.instantiate k r) (body.instantiate (k + 1) r)
  | app fn arg, k, r => app (fn.instantiate k r) (arg.instantiate k r)
  | arith op left right, k, r => arith op (left.instantiate k r) (right.instantiate k r)
  | neg operand, k, r => neg (operand.instantiate k r)

/-- Puts `r`, which has no loose indices, for every occurrence of a free name. -/
@[simp] def substFree : Nameless → String → Nameless → Nameless
  | free y, x, r => if y = x then r else free y
  | bound i, _, _ => bound i
  | constr c, _, _ => constr c
  | lit n, _, _ => lit n
  | lam body, x, r => lam (body.substFree x r)
  | letIn value body, x, r => letIn (value.substFree x r) (body.substFree x r)
  | app fn arg, x, r => app (fn.substFree x r) (arg.substFree x r)
  | arith op left right, x, r => arith op (left.substFree x r) (right.substFree x r)
  | neg operand, x, r => neg (operand.substFree x r)

/-- Lets the binders of a scope, the innermost first, bind the free names from behind the
`k` innermost binders on. -/
@[simp] def enclose (k : Nat) (scope : List String) : Nameless → Nameless
  | free x =>
    match scope.idxOf? x with
    | some i => bound (i + k)
    | none => free x
  | bound i => bound i
  | constr c => constr c
  | lit n => lit n
  | lam body => lam (body.enclose (k + 1) scope)
  | letIn value body => letIn (value.enclose k scope) (body.enclose (k + 1) scope)
  | app fn arg => app (fn.enclose k scope) (arg.enclose k scope)
  | arith op left right => arith op (left.enclose k scope) (right.enclose k scope)
  | neg operand => neg (operand.enclose k scope)

/-- Gives the indices that point behind the `k` innermost binders the names of a scope. -/
@[simp] def expose (k : Nat) (scope : List String) : Nameless → Nameless
  | bound i =>
    if i < k then bound i
    else
      match scope[i - k]? with
      | some x => free x
      | none => bound i
  | free x => free x
  | constr c => constr c
  | lit n => lit n
  | lam body => lam (body.expose (k + 1) scope)
  | letIn value body => letIn (value.expose k scope) (body.expose (k + 1) scope)
  | app fn arg => app (fn.expose k scope) (arg.expose k scope)
  | arith op left right => arith op (left.expose k scope) (right.expose k scope)
  | neg operand => neg (operand.expose k scope)

/-- Contracts a function applied to an argument, and leaves every other term. -/
def beta : Nameless → Nameless
  | app (lam body) arg => body.instantiate 0 arg
  | t => t

/-- Changes the subterm at a path, children counted from the left. -/
@[simp] def modifyAt (f : Nameless → Nameless) : List Nat → Nameless → Nameless
  | [], t => f t
  | 0 :: path, lam body => lam (body.modifyAt f path)
  | 0 :: path, letIn value body => letIn (value.modifyAt f path) body
  | 1 :: path, letIn value body => letIn value (body.modifyAt f path)
  | 0 :: path, app fn arg => app (fn.modifyAt f path) arg
  | 1 :: path, app fn arg => app fn (arg.modifyAt f path)
  | 0 :: path, arith op left right => arith op (left.modifyAt f path) right
  | 1 :: path, arith op left right => arith op left (right.modifyAt f path)
  | 0 :: path, neg operand => neg (operand.modifyAt f path)
  | _, t => t

variable {k : Nat} {x y : String} {scope : List String} {m n r : Nameless}

theorem ClosedAt.mono {l : Nat} (h : m.ClosedAt k) (hle : k ≤ l) : m.ClosedAt l := by
  induction m generalizing k l with
  | bound i => exact Nat.lt_of_lt_of_le h hle
  | free => trivial
  | constr => trivial
  | lit => trivial
  | lam body ih => exact ih h (Nat.succ_le_succ hle)
  | letIn value body ihv ihb => exact ⟨ihv h.1 hle, ihb h.2 (Nat.succ_le_succ hle)⟩
  | app fn arg ihf iha => exact ⟨ihf h.1 hle, iha h.2 hle⟩
  | arith op left right ihl ihr => exact ⟨ihl h.1 hle, ihr h.2 hle⟩
  | neg operand ih => exact ih h hle

/-- A name that does not occur is substituted without effect. -/
theorem substFree_of_not_hasFree (h : ¬ m.HasFree x) : m.substFree x r = m := by
  induction m with
  | free y =>
      have hyx : y ≠ x := h
      rw [substFree, if_neg hyx]
  | bound => rfl
  | constr => rfl
  | lit => rfl
  | lam body ih => rw [substFree, ih h]
  | letIn value body ihv ihb =>
      obtain ⟨hv, hb⟩ := not_or.mp h
      rw [substFree, ihv hv, ihb hb]
  | app fn arg ihf iha =>
      obtain ⟨hf, ha⟩ := not_or.mp h
      rw [substFree, ihf hf, iha ha]
  | arith op left right ihl ihr =>
      obtain ⟨hl, hr⟩ := not_or.mp h
      rw [substFree, ihl hl, ihr hr]
  | neg operand ih => rw [substFree, ih h]

/-- Substitution exchanges a free name for the free names of the replacement. -/
theorem hasFree_substFree :
    (m.substFree x r).HasFree y ↔ y ≠ x ∧ m.HasFree y ∨ m.HasFree x ∧ r.HasFree y := by
  induction m with
  | free z =>
      by_cases hzx : z = x
      · subst hzx
        simp only [substFree, if_pos, HasFree, true_and]
        constructor
        · exact .inr
        · rintro (⟨hne, heq⟩ | hr)
          · exact absurd heq.symm hne
          · exact hr
      · simp only [substFree, HasFree, hzx, if_false, false_and, or_false]
        exact ⟨fun h => ⟨h ▸ hzx, h⟩, fun h => h.2⟩
  | bound => simp [substFree, HasFree]
  | constr => simp [substFree, HasFree]
  | lit => simp [substFree, HasFree]
  | lam body ih => exact ih
  | letIn value body ihv ihb =>
      simp only [substFree, HasFree, ihv, ihb, and_or_left, or_and_right]
      exact or_or_or_comm
  | app fn arg ihf iha =>
      simp only [substFree, HasFree, ihf, iha, and_or_left, or_and_right]
      exact or_or_or_comm
  | arith op left right ihl ihr =>
      simp only [substFree, HasFree, ihl, ihr, and_or_left, or_and_right]
      exact or_or_or_comm
  | neg operand ih => exact ih

theorem closedAt_substFree (hm : m.ClosedAt k) (hr : r.ClosedAt 0) :
    (m.substFree x r).ClosedAt k := by
  induction m generalizing k with
  | free z =>
      by_cases hzx : z = x
      · rw [substFree, if_pos hzx]
        exact hr.mono (Nat.zero_le k)
      · rw [substFree, if_neg hzx]
        trivial
  | bound => exact hm
  | constr => trivial
  | lit => trivial
  | lam body ih => exact ih hm
  | letIn value body ihv ihb => exact ⟨ihv hm.1, ihb hm.2⟩
  | app fn arg ihf iha => exact ⟨ihf hm.1, iha hm.2⟩
  | arith op left right ihl ihr => exact ⟨ihl hm.1, ihr hm.2⟩
  | neg operand ih => exact ih hm

/-- Binders catch exactly the free names of their scope. -/
theorem hasFree_enclose : (m.enclose k scope).HasFree x ↔ m.HasFree x ∧ x ∉ scope := by
  induction m generalizing k with
  | free y =>
      cases hidx : scope.idxOf? y with
      | some i =>
          have hmem : y ∈ scope := List.isSome_idxOf?.mp (by rw [hidx]; rfl)
          simp only [enclose, hidx, HasFree, false_iff]
          rintro ⟨rfl, hy⟩
          exact hy hmem
      | none =>
          have hmem : y ∉ scope := List.idxOf?_eq_none_iff.mp hidx
          simp only [enclose, hidx, HasFree]
          constructor
          · rintro rfl
            exact ⟨rfl, hmem⟩
          · exact And.left
  | bound => simp [enclose, HasFree]
  | constr => simp [enclose, HasFree]
  | lit => simp [enclose, HasFree]
  | lam body ih => exact ih
  | letIn value body ihv ihb => simp only [enclose, HasFree, ihv, ihb, or_and_right]
  | app fn arg ihf iha => simp only [enclose, HasFree, ihf, iha, or_and_right]
  | arith op left right ihl ihr => simp only [enclose, HasFree, ihl, ihr, or_and_right]
  | neg operand ih => exact ih

/-- Binders of names that do not occur catch nothing. -/
theorem enclose_of_not_hasFree (h : ∀ y ∈ scope, ¬ m.HasFree y) : m.enclose k scope = m := by
  induction m generalizing k with
  | free y =>
      have hy : y ∉ scope := by
        intro hmem
        exact h y hmem rfl
      have hidx : scope.idxOf? y = none := List.idxOf?_eq_none_iff.mpr hy
      simp only [enclose, hidx]
  | bound => rfl
  | constr => rfl
  | lit => rfl
  | lam body ih => rw [enclose, ih h]
  | letIn value body ihv ihb =>
      simp only [HasFree, not_or, forall_and] at h
      rw [enclose, ihv h.1, ihb h.2]
  | app fn arg ihf iha =>
      simp only [HasFree, not_or, forall_and] at h
      rw [enclose, ihf h.1, iha h.2]
  | arith op left right ihl ihr =>
      simp only [HasFree, not_or, forall_and] at h
      rw [enclose, ihl h.1, ihr h.2]
  | neg operand ih => rw [enclose, ih h]

/-- Indices of the binders of a scope become the names they stand for again. -/
theorem expose_enclose (h : m.ClosedAt k) : (m.enclose k scope).expose k scope = m := by
  induction m generalizing k with
  | free y =>
      cases hidx : scope.idxOf? y with
      | some i =>
          obtain ⟨hi, hy, -⟩ := List.idxOf?_eq_some_iff.mp hidx
          have hback : scope[i + k - k]? = some y := by
            rw [Nat.add_sub_cancel, List.getElem?_eq_getElem hi, hy]
          simp only [enclose, hidx, expose, if_neg (show ¬ i + k < k by omega), hback]
      | none => simp only [enclose, hidx, expose]
  | bound i => simp only [enclose, expose, if_pos (show i < k from h)]
  | constr => rfl
  | lit => rfl
  | lam body ih => rw [enclose, expose, ih h]
  | letIn value body ihv ihb => rw [enclose, expose, ihv h.1, ihb h.2]
  | app fn arg ihf iha => rw [enclose, expose, ihf h.1, iha h.2]
  | arith op left right ihl ihr => rw [enclose, expose, ihl h.1, ihr h.2]
  | neg operand ih => rw [enclose, expose, ih h]

/-- Nothing is lost under binders. -/
theorem enclose_inj (hm : m.ClosedAt k) (hn : n.ClosedAt k) :
    m.enclose k scope = n.enclose k scope ↔ m = n := by
  constructor
  · intro h
    have hback : (m.enclose k scope).expose k scope = m := expose_enclose hm
    rw [← hback, h, expose_enclose hn]
  · rintro rfl
    rfl

/-- Substitution commutes with binders of other names that catch nothing of the
replacement. -/
theorem enclose_substFree (hx : x ∉ scope) (hr : ∀ y ∈ scope, ¬ r.HasFree y) :
    (m.substFree x r).enclose k scope = (m.enclose k scope).substFree x r := by
  induction m generalizing k with
  | free y =>
      by_cases hyx : y = x
      · subst hyx
        have hidx : scope.idxOf? y = none := List.idxOf?_eq_none_iff.mpr hx
        simp only [substFree, if_pos, enclose, hidx, enclose_of_not_hasFree hr]
      · simp only [substFree, if_neg hyx, enclose]
        cases scope.idxOf? y with
        | some i => rfl
        | none => simp only [substFree, if_neg hyx]
  | bound => rfl
  | constr => rfl
  | lit => rfl
  | lam body ih => rw [substFree, enclose, enclose, substFree, ih]
  | letIn value body ihv ihb => rw [substFree, enclose, enclose, substFree, ihv, ihb]
  | app fn arg ihf iha => rw [substFree, enclose, enclose, substFree, ihf, iha]
  | arith op left right ihl ihr => rw [substFree, enclose, enclose, substFree, ihl, ihr]
  | neg operand ih => rw [substFree, enclose, enclose, substFree, ih]

/-- A binder and its occurrences can take any name that does not occur. -/
theorem enclose_rename (h : ¬ m.HasFree y) :
    (m.substFree x (free y)).enclose k [y] = m.enclose k [x] := by
  induction m generalizing k with
  | free z =>
      have hzy : z ≠ y := h
      by_cases hzx : z = x
      · simp [substFree, enclose, hzx, List.idxOf?_cons]
      · simp [substFree, enclose, hzx, List.idxOf?_cons, Ne.symm hzx, Ne.symm hzy]
  | bound => rfl
  | constr => rfl
  | lit => rfl
  | lam body ih => rw [substFree, enclose, enclose, ih h]
  | letIn value body ihv ihb =>
      obtain ⟨hv, hb⟩ := not_or.mp h
      rw [substFree, enclose, enclose, ihv hv, ihb hb]
  | app fn arg ihf iha =>
      obtain ⟨hf, ha⟩ := not_or.mp h
      rw [substFree, enclose, enclose, ihf hf, iha ha]
  | arith op left right ihl ihr =>
      obtain ⟨hl, hr⟩ := not_or.mp h
      rw [substFree, enclose, enclose, ihl hl, ihr hr]
  | neg operand ih => rw [substFree, enclose, enclose, ih h]

/-- Room made behind the innermost binders moves the whole scope. -/
theorem lift_enclose {d : Nat} (h : m.ClosedAt k) :
    (m.enclose k scope).lift d k = m.enclose (k + d) scope := by
  induction m generalizing k with
  | free y =>
      cases hidx : scope.idxOf? y with
      | some i =>
          simp only [enclose, hidx, lift, bound.injEq]
          rw [if_neg (by omega)]
          omega
      | none => simp only [enclose, hidx, lift]
  | bound i =>
      have hi : i < k := h
      simp only [enclose, lift, if_pos hi]
  | constr => rfl
  | lit => rfl
  | lam body ih => rw [enclose, lift, enclose, ih h, Nat.add_right_comm]
  | letIn value body ihv ihb =>
      rw [enclose, lift, enclose, ihv h.1, ihb h.2, Nat.add_right_comm]
  | app fn arg ihf iha => rw [enclose, lift, enclose, ihf h.1, iha h.2]
  | arith op left right ihl ihr => rw [enclose, lift, enclose, ihl h.1, ihr h.2]
  | neg operand ih => rw [enclose, lift, enclose, ih h]

/-- What replaces the occurrences of an enclosing binder replaces the free name that the
binder caught. -/
theorem instantiate_enclose (hm : m.ClosedAt k) (hr : r.ClosedAt 0) :
    (m.enclose k (x :: scope)).instantiate k (r.enclose 0 scope) =
      (m.substFree x r).enclose k scope := by
  induction m generalizing k with
  | free y =>
      by_cases hyx : y = x
      · subst hyx
        simp [enclose, List.idxOf?_cons, instantiate, substFree, lift_enclose hr]
      · simp only [enclose, List.idxOf?_cons, beq_iff_eq, Ne.symm hyx, if_false, substFree,
          if_neg hyx]
        cases scope.idxOf? y with
        | some i =>
            simp only [Option.map_some, instantiate]
            rw [if_neg (by omega), if_neg (by omega)]
            congr 1
            omega
        | none => rfl
  | bound i =>
      have hi : i < k := hm
      simp only [enclose, instantiate, if_pos hi, substFree]
  | constr => rfl
  | lit => rfl
  | lam body ih => rw [enclose, instantiate, substFree, enclose, ih hm]
  | letIn value body ihv ihb =>
      rw [enclose, instantiate, substFree, enclose, ihv hm.1, ihb hm.2]
  | app fn arg ihf iha => rw [enclose, instantiate, substFree, enclose, ihf hm.1, iha hm.2]
  | arith op left right ihl ihr =>
      rw [enclose, instantiate, substFree, enclose, ihl hm.1, ihr hm.2]
  | neg operand ih => rw [enclose, instantiate, substFree, enclose, ih hm]

end Nameless

end Contractum
