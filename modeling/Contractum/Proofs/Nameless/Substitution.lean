import Contractum.Proofs.Names.Fresh
import Contractum.Proofs.Nameless.Form
import Contractum.Term.Substitution

/-!
# When substitution is right

On nameless forms substitution cannot go wrong. On named terms a binder that would catch
a free name of the replacement is renamed first, and the descent goes on into its scope
with the same name to substitute. If the binder's fresh name is that very name, the
occurrences that the binder owns are substituted too. This is the only way in which
substitution fails, and every time it happens the result is a wrong term.

The free names of a result are told exactly, clashes or not: those of the term without the
substituted one stay, and those of the replacement come with an occurrence to replace, the
binder's own ones in a clash included.
-/

namespace Contractum.Term

/-- Whether the descent of a substitution gives some binder the substituted name as its
fresh name, while the scope of the binder at that moment refers to it. -/
@[simp] def Clashes (t : Term) (x : String) (r : Term) : Prop :=
  match t with
  | var _ _ | constr _ | lit _ => False
  | lam param body _ =>
    if param = x then False
    else if r.isFree param then
      let fresh := freshName param body r
      fresh = x ∧ body.isFree param = true ∨ (body.rename param fresh).Clashes x r
    else body.Clashes x r
  | letIn name value body _ =>
    value.Clashes x r ∨
      if name = x then False
      else if r.isFree name then
        let fresh := freshName name body r
        fresh = x ∧ body.isFree name = true ∨ (body.rename name fresh).Clashes x r
      else body.Clashes x r
  | app fn arg => fn.Clashes x r ∨ arg.Clashes x r
  | arith _ left right => left.Clashes x r ∨ right.Clashes x r
  | neg operand => operand.Clashes x r
termination_by t.size
decreasing_by all_goals simp only [size, size_rename]; omega

variable {x y z : String} {t r : Term}

section FreeNames

-- The scope of a binder named `w`, without the binder.
variable {w : String} {body : Term}

/-- A binder that keeps its name hides no free name of the replacement. -/
theorem isFree_scope_iff_of_keep (hwx : w ≠ x) (hwr : ¬ r.isFree w = true)
    (ih : (body.subst x r).isFree z = true ↔ z ≠ x ∧ body.isFree z = true ∨
      (body.isFree x = true ∨ body.Clashes x r) ∧ r.isFree z = true) :
    w ≠ z ∧ (body.subst x r).isFree z = true ↔ z ≠ x ∧ w ≠ z ∧ body.isFree z = true ∨
      (w ≠ x ∧ body.isFree x = true ∨ body.Clashes x r) ∧ r.isFree z = true := by
  have hapart : r.isFree z = true → w ≠ z := by
    rintro hz rfl
    exact hwr hz
  rw [ih]
  grind

/-- A fresh name hides nothing that was free. If it is the substituted name, the occurrences of
the binder are free names to replace. -/
theorem isFree_scope_iff_of_rename (hwx : w ≠ x)
    (ih : ((body.rename w (freshName w body r)).subst x r).isFree z = true ↔
      z ≠ x ∧ (body.rename w (freshName w body r)).isFree z = true ∨
        ((body.rename w (freshName w body r)).isFree x = true ∨
          (body.rename w (freshName w body r)).Clashes x r) ∧ r.isFree z = true) :
    freshName w body r ≠ z ∧ ((body.rename w (freshName w body r)).subst x r).isFree z = true ↔
      z ≠ x ∧ w ≠ z ∧ body.isFree z = true ∨
        (w ≠ x ∧ body.isFree x = true ∨ freshName w body r = x ∧ body.isFree w = true ∨
          (body.rename w (freshName w body r)).Clashes x r) ∧ r.isFree z = true := by
  have hscope := freshName_not_mem_names w body r
  have hnew : ¬ body.isFree (freshName w body r) = true := fun h => hscope (mem_names_of_isFree h)
  have hfree := not_isFree_freshName w body r
  rw [ih, isFree_rename hscope, isFree_rename hscope]
  grind

end FreeNames

/-- The free names of a result are those of the term without the substituted name, and those of
the replacement if it is put anywhere, be it by a clash. -/
theorem isFree_subst_iff (t : Term) (x : String) (r : Term) (z : String) :
    (t.subst x r).isFree z = true ↔ z ≠ x ∧ t.isFree z = true ∨
      (t.isFree x = true ∨ t.Clashes x r) ∧ r.isFree z = true := by
  induction t using subst.induct x r with
  | case1 id =>
      rw [subst, if_pos rfl, isFree, isFree, Clashes, beq_self_eq_true, beq_iff_eq]
      grind
  | case2 name id hname =>
      rw [subst, if_neg hname, isFree, isFree, Clashes, beq_iff_eq, beq_iff_eq]
      grind
  | case3 | case4 => simp [subst, Clashes]
  | case5 body id =>
      rw [subst, if_pos rfl, Clashes, if_pos rfl, isFree_lam_iff, isFree_lam_iff]
      grind
  | case6 param body id hparam hr fresh ih =>
      rw [subst, if_neg hparam, if_pos hr, Clashes, if_neg hparam, if_pos hr]
      simp only [isFree_lam_iff]
      exact isFree_scope_iff_of_rename hparam ih
  | case7 param body id hparam hr ih =>
      rw [subst, if_neg hparam, if_neg hr, Clashes, if_neg hparam, if_neg hr]
      simp only [isFree_lam_iff]
      exact isFree_scope_iff_of_keep hparam hr ih
  | case8 value body id ihv =>
      rw [subst, if_pos rfl, Clashes, if_pos rfl]
      simp only [isFree_letIn_iff, ihv]
      grind
  | case9 name value body id hname hr fresh ihv ihb =>
      rw [subst, if_neg hname, if_pos hr, Clashes, if_neg hname, if_pos hr]
      simp only [isFree_letIn_iff, ihv, isFree_scope_iff_of_rename hname ihb]
      grind
  | case10 name value body id hname hr ihv ihb =>
      rw [subst, if_neg hname, if_neg hr, Clashes, if_neg hname, if_neg hr]
      simp only [isFree_letIn_iff, ihv, isFree_scope_iff_of_keep hname hr ihb]
      grind
  | case11 fn arg ihf iha =>
      simp only [subst, Clashes, isFree_app_iff, ihf, iha]
      grind
  | case12 op left right ihl ihr =>
      simp only [subst, Clashes, isFree_arith_iff, ihl, ihr]
      grind
  | case13 operand ih =>
      rw [subst, Clashes]
      exact ih

section Scope

-- The scope of a binder named `w`, without the binder.
variable {w : String} {body : Term}

/-- A binder that keeps its name is transparent to substitution. -/
theorem nameless_scope_iff_of_keep (hwx : w ≠ x) (hwr : ¬ r.isFree w = true)
    (ih : (body.subst x r).nameless = body.nameless.substFree x r.nameless ↔ ¬ body.Clashes x r) :
    (body.subst x r).nameless.enclose 0 [w] =
        (body.nameless.enclose 0 [w]).substFree x r.nameless ↔ ¬ body.Clashes x r := by
  have hr : ∀ y ∈ [w], ¬ r.nameless.HasFree y := by
    intro y hy
    rw [List.mem_singleton.mp hy, hasFree_nameless]
    exact hwr
  have hx : x ∉ [w] := by
    intro hx
    exact hwx (List.mem_singleton.mp hx).symm
  rw [← ih, ← Nameless.enclose_substFree hx hr]
  exact Nameless.enclose_inj (closedAt_nameless _)
    (Nameless.closedAt_substFree (closedAt_nameless _) (closedAt_nameless r))

/-- A binder that is given a name other than the substituted one is transparent, and one
that is given the substituted name loses all its occurrences. -/
theorem nameless_scope_iff_of_rename
    (ih : ((body.rename w (freshName w body r)).subst x r).nameless =
        (body.rename w (freshName w body r)).nameless.substFree x r.nameless ↔
      ¬ (body.rename w (freshName w body r)).Clashes x r) :
    ((body.rename w (freshName w body r)).subst x r).nameless.enclose 0 [freshName w body r] =
        (body.nameless.enclose 0 [w]).substFree x r.nameless ↔
      ¬ (freshName w body r = x ∧ body.isFree w = true ∨
        (body.rename w (freshName w body r)).Clashes x r) := by
  have hscope := freshName_not_mem_names w body r
  have hfree := not_isFree_freshName w body r
  rw [← enclose_nameless_rename hscope]
  by_cases hx : freshName w body r = x
  · rw [hx] at hscope hfree ih ⊢
    rw [substFree_enclose_self, Nameless.enclose_inj (closedAt_nameless _) (closedAt_nameless _)]
    by_cases hw : body.isFree w = true
    · -- the occurrences of the binder are free in the scope, and are not in the result
      have hlost : ¬ ((body.rename w x).subst x r).isFree x = true := by
        rw [isFree_subst_iff]
        rintro (⟨hne, -⟩ | ⟨-, hr⟩)
        · exact hne rfl
        · exact hfree hr
      have hthere : (body.rename w x).isFree x = true := (isFree_rename hscope).mpr (.inr ⟨hw, rfl⟩)
      constructor
      · intro h
        have hkept : ((body.rename w x).subst x r).isFree x = true := by
          rw [← hasFree_nameless, h, hasFree_nameless]
          exact hthere
        exact absurd hkept hlost
      · intro h
        exact absurd (.inl ⟨rfl, hw⟩) h
    · -- the substituted name does not occur at all
      have hnone : ¬ (body.rename w x).isFree x = true := by
        rw [isFree_rename hscope]
        rintro (⟨-, h⟩ | ⟨h, -⟩)
        · exact hscope (mem_names_of_isFree h)
        · exact hw h
      have hkeep : (body.rename w x).nameless.substFree x r.nameless = (body.rename w x).nameless :=
        Nameless.substFree_of_not_hasFree (by rwa [hasFree_nameless])
      rw [hkeep] at ih
      rw [ih]
      simp [hw]
  · have hnot : ¬ (freshName w body r = x ∧ body.isFree w = true) := fun h => hx h.1
    rw [or_iff_right hnot]
    exact nameless_scope_iff_of_keep hx hfree ih

end Scope

/-- Substitution is right exactly when nothing clashes. -/
theorem nameless_subst_iff (t : Term) (x : String) (r : Term) :
    (t.subst x r).nameless = t.nameless.substFree x r.nameless ↔ ¬ t.Clashes x r := by
  induction t using subst.induct x r with
  | case1 id => simp [subst, Clashes, Nameless.substFree]
  | case2 name id hname => simp [subst, hname, Clashes, Nameless.substFree]
  | case3 name => simp [subst, Clashes, Nameless.substFree]
  | case4 value => simp [subst, Clashes, Nameless.substFree]
  | case5 body id =>
      rw [subst, if_pos rfl, Clashes, if_pos rfl, nameless_lam, Nameless.substFree,
        substFree_enclose_self]
      simp
  | case6 param body id hparam hr fresh ih =>
      rw [subst, if_neg hparam, if_pos hr, Clashes, if_neg hparam, if_pos hr]
      simp only [nameless_lam, Nameless.substFree, Nameless.lam.injEq]
      exact nameless_scope_iff_of_rename ih
  | case7 param body id hparam hr ih =>
      rw [subst, if_neg hparam, if_neg hr, Clashes, if_neg hparam, if_neg hr]
      simp only [nameless_lam, Nameless.substFree, Nameless.lam.injEq]
      exact nameless_scope_iff_of_keep hparam hr ih
  | case8 value body id ihv =>
      rw [subst, if_pos rfl, Clashes, if_pos rfl]
      simp only [nameless_letIn, Nameless.substFree, Nameless.letIn.injEq, substFree_enclose_self,
        and_true, or_false]
      exact ihv
  | case9 name value body id hname hr fresh ihv ihb =>
      rw [subst, if_neg hname, if_pos hr, Clashes, if_neg hname, if_pos hr]
      simp only [nameless_letIn, Nameless.substFree, Nameless.letIn.injEq]
      rw [not_or]
      exact and_congr ihv (nameless_scope_iff_of_rename ihb)
  | case10 name value body id hname hr ihv ihb =>
      rw [subst, if_neg hname, if_neg hr, Clashes, if_neg hname, if_neg hr]
      simp only [nameless_letIn, Nameless.substFree, Nameless.letIn.injEq]
      rw [not_or]
      exact and_congr ihv (nameless_scope_iff_of_keep hname hr ihb)
  | case11 fn arg ihf iha =>
      rw [subst, Clashes, not_or, ← ihf, ← iha]
      simp [Nameless.substFree]
  | case12 op left right ihl ihr =>
      rw [subst, Clashes, not_or, ← ihl, ← ihr]
      simp [Nameless.substFree]
  | case13 operand ih =>
      rw [subst, Clashes, ← ih]
      simp [Nameless.substFree]

end Contractum.Term
