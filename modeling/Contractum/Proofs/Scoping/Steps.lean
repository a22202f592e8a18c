import Contractum.Proofs.Names.Fresh
import Contractum.Proofs.Nameless.Form
import Contractum.Proofs.Reduction.Preservation
import Contractum.Proofs.Scoping.Resolved

/-!
# Steps of resolved terms

Renaming a binder, substituting and contracting keep terms resolved, although numbers are
only copied while names change. Under a fresh name everything means what it meant before;
this is so even where the fresh name is the substituted one, since what is then put in the
place of bound occurrences is resolved there too.
-/

namespace Contractum.Term

variable {x y : String} {id : Option Int} {scope inner : Scope} {t u r : Term} {path : Path}

/-- The scopes outside and inside of a renaming: the new name means inside what the old one
means outside, and all other names mean the same. -/
structure RenamesScope (x y : String) (scope inner : Scope) : Prop where
  renamed : inner.lookup y = scope.lookup x
  same : ∀ z, z ≠ x → z ≠ y → inner.lookup z = scope.lookup z

theorem renamesScope_cons : RenamesScope x y ((x, id) :: scope) ((y, id) :: scope) where
  renamed := by rw [List.lookup_cons_self, List.lookup_cons_self]
  same := by
    intro z hzx hzy
    rw [lookup_cons_of_ne hzy, lookup_cons_of_ne hzx]

/-- Binders of other names are passed. -/
theorem RenamesScope.under {p : String} (h : RenamesScope x y scope inner) (hpx : p ≠ x)
    (hpy : p ≠ y) : RenamesScope x y ((p, id) :: scope) ((p, id) :: inner) where
  renamed := by rw [lookup_cons_of_ne hpy.symm, lookup_cons_of_ne hpx.symm, h.renamed]
  same := by
    intro z hzx hzy
    exact lookup_cons_congr fun _ => h.same z hzx hzy

/-- Below a binder of the old name nothing is renamed. -/
theorem RenamesScope.resolved_of_bound (hscope : RenamesScope x y scope inner)
    (h : Resolved ((x, id) :: scope) t) (hy : y ∉ t.names) : Resolved ((x, id) :: inner) t := by
  apply h.congr_cons
  intro z hzx hz
  have hzy : z ≠ y := by
    rintro rfl
    exact hy (mem_names_of_isFree hz)
  exact hscope.same z hzx hzy

/-- Renaming to a name that is new to the term keeps it resolved. -/
theorem Resolved.rename (h : Resolved scope t) (hscope : RenamesScope x y scope inner)
    (hy : y ∉ t.names) : Resolved inner (t.rename x y) := by
  induction t generalizing scope inner with
  | var z id =>
      obtain ⟨k, hid, hz⟩ := h
      refine ⟨k, hid, ?_⟩
      by_cases hzx : z = x
      · rw [if_pos hzx, hscope.renamed, ← hzx, hz]
      · have hzy : z ≠ y := by
          rintro rfl
          exact hy (List.mem_singleton_self z)
        rw [if_neg hzx, hscope.same z hzx hzy, hz]
  | constr => trivial
  | lit => trivial
  | lam p body id ih =>
      rw [names, List.mem_cons, not_or] at hy
      obtain ⟨hpy, hbody⟩ := hy
      rw [Term.rename]
      by_cases hpx : p = x
      · subst hpx
        rw [if_pos rfl]
        exact hscope.resolved_of_bound h hbody
      · rw [if_neg hpx]
        exact ih h (hscope.under hpx (Ne.symm hpy)) hbody
  | letIn p value body id ihv ihb =>
      rw [names, List.mem_cons, List.mem_append, not_or, not_or] at hy
      obtain ⟨hpy, hvalue, hbody⟩ := hy
      rw [Term.rename]
      refine ⟨ihv h.1 hscope hvalue, ?_⟩
      by_cases hpx : p = x
      · subst hpx
        rw [if_pos rfl]
        exact hscope.resolved_of_bound h.2 hbody
      · rw [if_neg hpx]
        exact ihb h.2 (hscope.under hpx (Ne.symm hpy)) hbody
  | app fn arg ihf iha =>
      rw [names, List.mem_append, not_or] at hy
      exact ⟨ihf h.1 hscope hy.1, iha h.2 hscope hy.2⟩
  | arith op left right ihl ihr =>
      rw [names, List.mem_append, not_or] at hy
      exact ⟨ihl h.1 hscope hy.1, ihr h.2 hscope hy.2⟩
  | neg operand ih => exact ih h hscope hy

/-- A binder can be given a name that its scope does not use. -/
theorem Resolved.rename_binder (h : Resolved ((x, id) :: scope) t) (hy : y ∉ t.names) :
    Resolved ((y, id) :: scope) (t.rename x y) :=
  h.rename renamesScope_cons hy

/-- A term is resolved under a binder that catches none of its names. -/
theorem Resolved.under (h : Resolved scope t) (hx : ¬ t.isFree x = true) :
    Resolved ((x, id) :: scope) t := by
  apply h.congr
  intro z hz
  have hzx : z ≠ x := by
    rintro rfl
    exact hx hz
  exact lookup_cons_of_ne hzx

/-- Whether the free names of a term, one apart, mean the same in two scopes. -/
def AgreeBut (x : String) (t : Term) (inner scope : Scope) : Prop :=
  ∀ z, z ≠ x → t.isFree z = true → inner.lookup z = scope.lookup z

/-- A binder hides its own name on both sides. -/
theorem AgreeBut.under {param : String}
    (hsame : ∀ z, z ≠ x → param ≠ z → t.isFree z = true → inner.lookup z = scope.lookup z) :
    AgreeBut x t ((param, id) :: inner) ((param, id) :: scope) := by
  intro z hzx hz
  apply lookup_cons_congr
  intro hzp
  exact hsame z hzx hzp.symm hz

/-- What is free in a renamed scope is the new name, or free outside the binder. -/
theorem AgreeBut.under_rename {param fresh : String} (hfresh : fresh ∉ t.names)
    (hsame : ∀ z, z ≠ x → param ≠ z → t.isFree z = true → inner.lookup z = scope.lookup z) :
    AgreeBut x (t.rename param fresh) ((fresh, id) :: inner) ((fresh, id) :: scope) := by
  intro z hzx hz
  apply lookup_cons_congr
  intro hne
  rcases (isFree_rename hfresh).mp hz with ⟨hparam, hbody⟩ | ⟨-, hz'⟩
  · exact hsame z hzx hparam.symm hbody
  · exact absurd hz'.symm hne

/-- Substitution resolves a term in a scope where its other names mean what they meant, if
the replacement is resolved there. -/
theorem Resolved.subst (h : Resolved scope t) (hr : Resolved inner r)
    (hsame : AgreeBut x t inner scope) : Resolved inner (t.subst x r) := by
  induction t using subst.induct x r generalizing scope inner with
  | case1 id =>
      rw [Term.subst, if_pos rfl]
      exact hr
  | case2 name id hname =>
      rw [Term.subst, if_neg hname]
      apply h.congr
      intro z hz
      have hzx : z ≠ x := by
        rintro rfl
        exact hname (eq_of_beq hz)
      exact hsame z hzx hz
  | case3 name =>
      rw [Term.subst]
      trivial
  | case4 value =>
      rw [Term.subst]
      trivial
  | case5 body id =>
      rw [Term.subst, if_pos rfl]
      apply h.congr
      intro z hz
      exact hsame z (isFree_lam_iff.mp hz).1.symm hz
  | case6 param body id hparam hfree fresh =>
      rename_i ih
      rw [Term.subst, if_neg hparam, if_pos hfree]
      have hfresh := freshName_not_mem_names param body r
      apply ih (Resolved.rename_binder h hfresh) (hr.under (not_isFree_freshName param body r))
      apply AgreeBut.under_rename hfresh
      intro z hzx hpz hz
      exact hsame z hzx (isFree_lam_iff.mpr ⟨hpz, hz⟩)
  | case7 param body id hparam hfree ih =>
      rw [Term.subst, if_neg hparam, if_neg hfree]
      apply ih h (hr.under hfree)
      apply AgreeBut.under
      intro z hzx hpz hz
      exact hsame z hzx (isFree_lam_iff.mpr ⟨hpz, hz⟩)
  | case8 value body id ihv =>
      rw [Term.subst, if_pos rfl]
      refine ⟨ihv h.1 hr ?_, h.2.congr_cons ?_⟩
      · intro z hzx hz
        exact hsame z hzx (isFree_letIn_iff.mpr (.inl hz))
      · intro z hzx hz
        exact hsame z hzx (isFree_letIn_iff.mpr (.inr ⟨hzx.symm, hz⟩))
  | case9 name value body id hname hfree fresh ihv =>
      rename_i ihb
      rw [Term.subst, if_neg hname, if_pos hfree]
      have hfresh := freshName_not_mem_names name body r
      have hunder : Resolved ((fresh, id) :: inner) r := hr.under (not_isFree_freshName name body r)
      refine ⟨ihv h.1 hr ?_, ihb (Resolved.rename_binder h.2 hfresh) hunder ?_⟩
      · intro z hzx hz
        exact hsame z hzx (isFree_letIn_iff.mpr (.inl hz))
      · apply AgreeBut.under_rename hfresh
        intro z hzx hnz hz
        exact hsame z hzx (isFree_letIn_iff.mpr (.inr ⟨hnz, hz⟩))
  | case10 name value body id hname hfree ihv ihb =>
      rw [Term.subst, if_neg hname, if_neg hfree]
      refine ⟨ihv h.1 hr ?_, ihb h.2 (hr.under hfree) ?_⟩
      · intro z hzx hz
        exact hsame z hzx (isFree_letIn_iff.mpr (.inl hz))
      · apply AgreeBut.under
        intro z hzx hnz hz
        exact hsame z hzx (isFree_letIn_iff.mpr (.inr ⟨hnz, hz⟩))
  | case11 fn arg ihf iha =>
      rw [Term.subst]
      refine ⟨ihf h.1 hr ?_, iha h.2 hr ?_⟩
      · intro z hzx hz
        exact hsame z hzx (isFree_app_iff.mpr (.inl hz))
      · intro z hzx hz
        exact hsame z hzx (isFree_app_iff.mpr (.inr hz))
  | case12 op left right ihl ihr =>
      rw [Term.subst]
      refine ⟨ihl h.1 hr ?_, ihr h.2 hr ?_⟩
      · intro z hzx hz
        exact hsame z hzx (isFree_arith_iff.mpr (.inl hz))
      · intro z hzx hz
        exact hsame z hzx (isFree_arith_iff.mpr (.inr hz))
  | case13 operand ih =>
      rw [Term.subst]
      exact ih h hr hsame

/-- What a redex becomes is resolved where the redex is. -/
theorem Resolved.contract (h : Resolved scope t) (hu : Contracts t u) : Resolved scope u := by
  cases hu with
  | beta x body id arg =>
      have hbody : Resolved ((x, id) :: scope) body := h.1
      apply hbody.subst h.2
      intro z hz _
      exact (lookup_cons_of_ne hz).symm
  | arith => trivial
  | neg => trivial

theorem passesToChildren_resolved : PassesToChildren Resolved := by
  intro scope t i c h hchild
  exact ⟨_, h.child hchild⟩

/-- Steps keep terms resolved, below binders too. -/
theorem Resolved.contractAt (h : Resolved scope t) (hu : t.contractAt path = .ok u) :
    Resolved scope u :=
  passesToChildren_resolved.contractAt (fun _ _ _ => Resolved.contract) h hu

end Contractum.Term
