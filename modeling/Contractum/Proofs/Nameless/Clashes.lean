import Contractum.Proofs.Nameless.Substitution

/-!
# Clashes

A clash needs a binder whose name is free in the replacement and becomes the substituted name
by some primes, so without such a binder substitution is right. A clash spoils what is bound and
nothing else: what was free stays free, and only free names of the replacement become free.
-/

namespace Contractum.Term

/-- The names of all binders. -/
@[simp] def boundNames : Term → List String
  | var _ _ | constr _ | lit _ => []
  | lam param body _ => param :: body.boundNames
  | letIn name value body _ => name :: (value.boundNames ++ body.boundNames)
  | app fn arg => fn.boundNames ++ arg.boundNames
  | arith _ left right => left.boundNames ++ right.boundNames
  | neg operand => operand.boundNames

variable {x y : String} {t r : Term}

/-- Renaming free occurrences renames no binder. -/
@[simp] theorem boundNames_rename (x y : String) (t : Term) :
    (t.rename x y).boundNames = t.boundNames := by
  induction t with
  | var | constr | lit => rfl
  | lam param body id ih => by_cases h : param = x <;> simp [h, ih]
  | letIn name value body id ihv ihb => by_cases h : name = x <;> simp [h, ihv, ihb]
  | app fn arg ihf iha => simp [ihf, iha]
  | arith op left right ihl ihr => simp [ihl, ihr]
  | neg operand ih => simpa using ih

/-- Whether the substituted name is one of the names, free in the replacement, with at least one
prime behind it. -/
def IsPrimedIn (names : List String) (x : String) (r : Term) : Prop :=
  ∃ y ∈ names, r.isFree y = true ∧ ∃ k, x = primed y (k + 1)

theorem IsPrimedIn.mono {names more : List String} (h : IsPrimedIn names x r)
    (hsubset : names ⊆ more) : IsPrimedIn more x r := by
  obtain ⟨y, hy, hrest⟩ := h
  exact ⟨y, hsubset hy, hrest⟩

/-- A clash is at a binder of the term, since the descent renames no binder before it gets there. -/
theorem Clashes.isPrimedIn (h : t.Clashes x r) : IsPrimedIn t.boundNames x r := by
  induction t using subst.induct x r with
  | case1 | case2 | case3 | case4 | case5 => simp [Clashes] at h
  | case6 param body id hparam hr fresh ih =>
      rw [Clashes, if_neg hparam, if_pos hr] at h
      rcases h with ⟨hx, -⟩ | h
      · obtain ⟨k, -, hfresh, -⟩ := freshName_spec param body r
        exact ⟨param, List.mem_cons_self, hr, k, hx.symm.trans hfresh⟩
      · have hbody := ih h
        rw [boundNames_rename] at hbody
        exact hbody.mono (List.subset_cons_self _ _)
  | case7 param body id hparam hr ih =>
      rw [Clashes, if_neg hparam, if_neg hr] at h
      exact (ih h).mono (List.subset_cons_self _ _)
  | case8 value body id ihv =>
      rw [Clashes, if_pos rfl, or_false] at h
      exact (ihv h).mono (by simp)
  | case9 name value body id hname hr fresh ihv ihb =>
      rw [Clashes, if_neg hname, if_pos hr] at h
      rcases h with h | ⟨hx, -⟩ | h
      · exact (ihv h).mono (by simp)
      · obtain ⟨k, -, hfresh, -⟩ := freshName_spec name body r
        exact ⟨name, List.mem_cons_self, hr, k, hx.symm.trans hfresh⟩
      · have hbody := ihb h
        rw [boundNames_rename] at hbody
        exact hbody.mono (by simp)
  | case10 name value body id hname hr ihv ihb =>
      rw [Clashes, if_neg hname, if_neg hr] at h
      rcases h with h | h
      · exact (ihv h).mono (by simp)
      · exact (ihb h).mono (by simp)
  | case11 fn arg ihf iha =>
      rw [Clashes] at h
      rcases h with h | h
      · exact (ihf h).mono (by simp)
      · exact (iha h).mono (by simp)
  | case12 op left right ihl ihr =>
      rw [Clashes] at h
      rcases h with h | h
      · exact (ihl h).mono (by simp)
      · exact (ihr h).mono (by simp)
  | case13 operand ih =>
      rw [Clashes] at h
      exact ih h

/-- Substitution is right exactly when the descent gives the substituted name to no binder whose
scope refers to it then, so whenever that name is not the one of a binder with primes. -/
theorem subst_right_iff (t : Term) (x : String) (r : Term) :
    ((t.subst x r).nameless = t.nameless.substFree x r.nameless ↔ ¬ t.Clashes x r) ∧
      (¬ IsPrimedIn t.boundNames x r →
        (t.subst x r).nameless = t.nameless.substFree x r.nameless) := by
  have hright := nameless_subst_iff t x r
  refine ⟨hright, ?_⟩
  intro hprimed
  apply hright.mpr
  intro hclash
  exact hprimed hclash.isPrimedIn

/-- The binder `y` of this term is renamed, and the substituted name is not `y` with primes. -/
theorem subst_right_renamed :
    let t := lam "y" (app (var "x'" none) (var "y" none)) none
    ¬ IsPrimedIn t.boundNames "x'" (var "y" none) ∧
      t.subst "x'" (var "y" none) = lam "y'" (app (var "y" none) (var "y'" none)) none ∧
      (t.subst "x'" (var "y" none)).nameless = .lam (.app (.free "y") (.bound 0)) := by
  intro t
  have hprimed : ¬ IsPrimedIn t.boundNames "x'" (var "y" none) := by
    rintro ⟨y, hy, -, k, hk⟩
    obtain rfl : y = "y" := List.mem_singleton.mp hy
    have hlength := congrArg String.length hk
    rw [length_primed] at hlength
    change 2 = 1 + (k + 1) at hlength
    obtain rfl : k = 0 := by omega
    exact absurd hk (by decide)
  refine ⟨hprimed, by decide +kernel, ?_⟩
  rw [(subst_right_iff t "x'" (var "y" none)).2 hprimed]
  rfl

/-- Whatever the names are, substitution keeps all other free names, makes no name free that was
free neither in the replacement nor in the term, and exchanges the substituted name for the free
names of the replacement where it was free. -/
theorem subst_keeps_free_names (t : Term) (x : String) (r : Term) :
    (∀ y ≠ x, t.isFree y = true → (t.subst x r).isFree y = true) ∧
      (∀ y, (t.subst x r).isFree y = true → r.isFree y = true ∨ y ≠ x ∧ t.isFree y = true) ∧
      (t.isFree x = true → ∀ y, y ∈ (t.subst x r).freeNames ↔
        y ≠ x ∧ y ∈ t.freeNames ∨ y ∈ r.freeNames) := by
  refine ⟨?_, ?_, ?_⟩
  · intro y hyx hy
    exact (isFree_subst_iff t x r y).mpr (.inl ⟨hyx, hy⟩)
  · intro y hy
    rcases (isFree_subst_iff t x r y).mp hy with hkept | ⟨-, hr⟩
    · exact .inr hkept
    · exact .inl hr
  · intro hx y
    rw [← isFree_iff_mem_freeNames, ← isFree_iff_mem_freeNames, ← isFree_iff_mem_freeNames,
      isFree_subst_iff]
    simp [hx]

/-- In this term the binder `y` becomes `y'`, and its occurrence is taken for the substituted
name. The free names of the result are still the right ones. -/
theorem subst_keeps_free_names_clashing :
    let t := app (lam "y" (var "y" none) none) (app (var "y'" none) (var "z" none))
    t.isFree "y'" = true ∧
      t.subst "y'" (var "y" none) =
        app (lam "y'" (var "y" none) none) (app (var "y" none) (var "z" none)) ∧
      ∀ y, y ∈ (t.subst "y'" (var "y" none)).freeNames ↔ y = "z" ∨ y = "y" := by
  intro t
  have hfree : t.isFree "y'" = true := by decide
  refine ⟨hfree, by decide +kernel, ?_⟩
  intro y
  rw [(subst_keeps_free_names t "y'" (var "y" none)).2.2 hfree y]
  simp [t]
  grind

end Contractum.Term
