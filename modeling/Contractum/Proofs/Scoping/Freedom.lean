import Contractum.Proofs.Scoping.Binders

/-!
# Free names and unbound variables

A name is free in a term when some variable of that name has no binder there. The test for one
name, the collection of all free names and the search for the binder of each variable go through
a term in different ways, and agree on this: in each of them a binder takes its name away from
the child in its scope only.
-/

namespace Contractum.Term

/-- A variable of this name stands at the path, and no binder of the name on the way to it. -/
def UnboundAt (t : Term) (x : String) (path : Path) : Prop :=
  (∃ id, t.get? path = some (var x id)) ∧ t.binderAbove? x path = none

variable {t c : Term} {x : String} {path above other : Path} {id id' : Option Int} {i : Nat}

/-- A name is free in a variable of that name, and in a node with a child in which it is free and
in which the node does not bind it. -/
theorem isFree_iff_child :
    t.isFree x = true ↔
      (∃ id, t = var x id) ∨
        ∃ i c, HasChild t i c ∧ t.bindsIn x i = false ∧ c.isFree x = true := by
  constructor
  · intro h
    cases t with
    | var y id => exact .inl ⟨id, by rw [eq_of_beq h]⟩
    | constr | lit => cases h
    | lam y body id =>
        obtain ⟨hne, hbody⟩ := isFree_lam_iff.mp h
        exact .inr ⟨0, body, .body .., by simp [hne], hbody⟩
    | letIn y value body id =>
        rcases isFree_letIn_iff.mp h with hvalue | ⟨hne, hbody⟩
        · exact .inr ⟨0, value, .letValue .., by simp, hvalue⟩
        · exact .inr ⟨1, body, .letBody .., by simp [hne], hbody⟩
    | app fn arg =>
        rcases isFree_app_iff.mp h with hfn | harg
        · exact .inr ⟨0, fn, .fn .., rfl, hfn⟩
        · exact .inr ⟨1, arg, .arg .., rfl, harg⟩
    | arith op left right =>
        rcases isFree_arith_iff.mp h with hleft | hright
        · exact .inr ⟨0, left, .left .., rfl, hleft⟩
        · exact .inr ⟨1, right, .right .., rfl, hright⟩
    | neg operand => exact .inr ⟨0, operand, .operand _, rfl, h⟩
  · rintro (⟨id, rfl⟩ | ⟨i, c, hchild, hbinds, hfree⟩)
    · exact beq_self_eq_true x
    · cases hchild with
      | body y =>
          have hne : y ≠ x := by simpa using hbinds
          exact isFree_lam_iff.mpr ⟨hne, hfree⟩
      | letValue => exact isFree_letIn_iff.mpr (.inl hfree)
      | letBody y =>
          have hne : y ≠ x := by simpa using hbinds
          exact isFree_letIn_iff.mpr (.inr ⟨hne, hfree⟩)
      | fn => exact isFree_app_iff.mpr (.inl hfree)
      | arg => exact isFree_app_iff.mpr (.inr hfree)
      | left => exact isFree_arith_iff.mpr (.inl hfree)
      | right => exact isFree_arith_iff.mpr (.inr hfree)
      | operand => exact hfree

theorem unboundAt_nil_iff : t.UnboundAt x [] ↔ ∃ id, t = var x id := by
  simp only [UnboundAt, get?_nil, Option.some_inj, binderAbove?, and_true]

/-- On the way into a child a variable stays unbound unless the node binds its name there. -/
theorem unboundAt_cons_iff (hc : t.child? i = some c) :
    t.UnboundAt x (i :: path) ↔ t.bindsIn x i = false ∧ c.UnboundAt x path := by
  simp only [UnboundAt, get?, binderAbove?, hc, Option.bind_some]
  cases hfound : c.binderAbove? x path with
  | some found => simp
  | none => cases hbinds : t.bindsIn x i <;> simp

/-- A name is free exactly where one of its variables is unbound. -/
theorem isFree_iff_exists_unboundAt : t.isFree x = true ↔ ∃ path, t.UnboundAt x path := by
  constructor
  · intro h
    induction t using children_induction with
    | step t ih =>
        rcases isFree_iff_child.mp h with hvar | ⟨i, c, hchild, hbinds, hfree⟩
        · exact ⟨[], unboundAt_nil_iff.mpr hvar⟩
        · obtain ⟨path, hpath⟩ := ih c hchild.mem_children hfree
          have hc : t.child? i = some c := child?_eq_some_iff.mpr hchild
          exact ⟨i :: path, (unboundAt_cons_iff hc).mpr ⟨hbinds, hpath⟩⟩
  · rintro ⟨path, h⟩
    induction path generalizing t with
    | nil => exact isFree_iff_child.mpr (.inl (unboundAt_nil_iff.mp h))
    | cons i path ih =>
        obtain ⟨id, hget⟩ := h.1
        obtain ⟨c, hc, -⟩ := Option.bind_eq_some_iff.mp hget
        obtain ⟨hbinds, hpath⟩ := (unboundAt_cons_iff hc).mp h
        exact isFree_iff_child.mpr (.inr ⟨i, c, child?_eq_some_iff.mp hc, hbinds, ih hpath⟩)

theorem binderOf?_of_var (hget : t.get? path = some (var x id)) :
    t.binderOf? path = t.binderAbove? x path := by
  rw [binderOf?, hget]

theorem InnermostBinder.unique (h : t.InnermostBinder x path above id)
    (h' : t.InnermostBinder x path other id') : above = other := by
  have habove : above <+: other := h'.innermost above id h.binds
  have hother : other <+: above := h.innermost other id' h'.binds
  exact habove.eq_of_length_le hother.length_le

/-- The search from a variable upwards ends at the innermost binder of its name, and at no other
place. -/
theorem binderOf?_eq_some_iff (hget : t.get? path = some (var x id)) :
    t.binderOf? path = some above ↔ ∃ id', t.InnermostBinder x path above id' := by
  have hspec := binderAbove?_spec x hget
  rw [binderOf?_of_var hget]
  cases hfound : t.binderAbove? x path with
  | none =>
      rw [hfound] at hspec
      constructor
      · rintro ⟨⟩
      · rintro ⟨id', hinnermost⟩
        exact absurd hinnermost.binds (hspec above id')
  | some found =>
      rw [hfound] at hspec
      obtain ⟨idf, hinnermost⟩ := hspec
      rw [Option.some_inj]
      constructor
      · rintro rfl
        exact ⟨idf, hinnermost⟩
      · rintro ⟨id', hother⟩
        exact hinnermost.unique hother

/-- The three notions of scope agree: the test finds a name free when the collection holds it, and
this is when a variable of the name has no binder; and the binder of a variable is the innermost
one of its name in whose scope the variable lies. -/
theorem scopes_agree (t : Term) (x : String) :
    (t.isFree x = true ↔ x ∈ t.freeNames) ∧
      (x ∈ t.freeNames ↔ ∃ path id, t.get? path = some (var x id) ∧ t.binderOf? path = none) ∧
      ∀ path id above, t.get? path = some (var x id) →
        (t.binderOf? path = some above ↔ ∃ id', t.InnermostBinder x path above id') := by
  refine ⟨isFree_iff_mem_freeNames, ?_, fun path id above => binderOf?_eq_some_iff⟩
  rw [← isFree_iff_mem_freeNames, isFree_iff_exists_unboundAt]
  constructor
  · rintro ⟨path, ⟨id, hget⟩, hunbound⟩
    exact ⟨path, id, hget, (binderOf?_of_var hget).trans hunbound⟩
  · rintro ⟨path, id, hget, hunbound⟩
    exact ⟨path, ⟨id, hget⟩, (binderOf?_of_var hget).symm.trans hunbound⟩

/-- The term `let x = x in \y -> x`, whose first `x` is free and whose second one is bound by the
`let`. -/
def halfBound : Term :=
  letIn "x" (var "x" none) (lam "y" (var "x" (some 0)) (some 1)) (some 0)

theorem scopes_agree_halfBound :
    halfBound.isFree "x" = true ∧ "x" ∈ halfBound.freeNames ∧
      (∃ path id, halfBound.get? path = some (var "x" id) ∧ halfBound.binderOf? path = none) ∧
      halfBound.get? [1, 0] = some (var "x" (some 0)) ∧
      halfBound.binderOf? [1, 0] = some [] ∧
      ∃ id, halfBound.InnermostBinder "x" [1, 0] [] id := by
  obtain ⟨htest, hsearch, hbinder⟩ := scopes_agree halfBound "x"
  have hfree : halfBound.isFree "x" = true := by decide
  have hget : halfBound.get? [1, 0] = some (var "x" (some 0)) := rfl
  have hfound : halfBound.binderOf? [1, 0] = some [] := rfl
  exact ⟨hfree, htest.mp hfree, hsearch.mp (htest.mp hfree), hget, hfound,
    (hbinder [1, 0] (some 0) [] hget).mp hfound⟩

end Contractum.Term
