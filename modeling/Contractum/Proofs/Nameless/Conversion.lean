import Contractum.Proofs.Names.Candidates
import Contractum.Proofs.Nameless.Form

/-!
# Binders under fresh names

A conversion gives a binder and the occurrences that it binds a fresh name. It stops at inner
binders of the old name, and goes on below all others. None of those bears the fresh name, so
every occurrence still refers to the binder it referred to. What changes are names of the binder
and of its occurrences, and nothing else.
-/

namespace Contractum.Term

/-- The term with one and the same name for all variables and binders. -/
@[simp] def unnamed : Term → Term
  | var _ id => var "" id
  | constr c => constr c
  | lit value => lit value
  | lam _ body id => lam "" body.unnamed id
  | letIn _ value body id => letIn "" value.unnamed body.unnamed id
  | app fn arg => app fn.unnamed arg.unnamed
  | arith op left right => arith op left.unnamed right.unnamed
  | neg operand => neg operand.unnamed

variable {b scope : Term} {x : String} {id : Option Int} {i : Nat}

@[simp] theorem unnamed_rename (x y : String) (t : Term) : (t.rename x y).unnamed = t.unnamed := by
  induction t with
  | var | constr | lit => rfl
  | lam param body id ih => by_cases h : param = x <;> simp [h, ih]
  | letIn name value body id ihv ihb => by_cases h : name = x <;> simp [h, ihv, ihb]
  | app fn arg ihf iha => simp [ihf, iha]
  | arith op left right ihl ihr => simp [ihl, ihr]
  | neg operand ih => simpa using ih

theorem children_unnamed (t : Term) : t.unnamed.children = t.children.map unnamed := by
  cases t <;> rfl

theorem get?_unnamed (t : Term) (path : Path) :
    t.unnamed.get? path = (t.get? path).map unnamed := by
  induction path generalizing t with
  | nil => simp
  | cons i path ih =>
      rw [get?, get?, child?, children_unnamed, List.getElem?_map, child?]
      cases t.children[i]? with
      | none => rfl
      | some c => exact ih c

/-- No occurrence changes its binder. -/
theorem nameless_alphaConvert (b r : Term) : (b.alphaConvert r).nameless = b.nameless := by
  cases b with
  | lam param body id =>
      have hfresh := freshName_not_mem_names param body r
      rw [alphaConvert, nameless_lam, nameless_lam, enclose_nameless_rename hfresh]
  | letIn name value body id =>
      have hfresh := freshName_not_mem_names name body r
      rw [alphaConvert, nameless_letIn, nameless_letIn, enclose_nameless_rename hfresh]
  | var | constr | lit | app | arith | neg => rfl

theorem unnamed_alphaConvert (b r : Term) : (b.alphaConvert r).unnamed = b.unnamed := by
  cases b with
  | lam | letIn => simp [alphaConvert]
  | var | constr | lit | app | arith | neg => rfl

/-- A conversion reaches nothing outside the scope of the binder. -/
theorem child?_alphaConvert_of_ne {j : Nat} (hbinds : Binds b i x id) (hj : j ≠ i) (r : Term) :
    (b.alphaConvert r).child? j = b.child? j := by
  cases hbinds with
  | lam =>
      obtain ⟨j, rfl⟩ := Nat.exists_eq_succ_of_ne_zero hj
      rfl
  | letIn =>
      match j with
      | 0 => rfl
      | 1 => exact absurd rfl hj
      | _ + 2 => rfl

/-- The binder gets the fresh name, and keeps its number. -/
theorem binds_alphaConvert (hbinds : Binds b i x id) (hscope : b.child? i = some scope)
    (r : Term) : Binds (b.alphaConvert r) i (freshName x scope r) id := by
  cases hbinds with
  | lam | letIn =>
      cases hscope
      constructor

/-- A binder under a fresh name means what it meant. At every path stands what stood there, up to
names, with the same number, and outside the scope nothing has changed at all. The new name of the
binder was in use nowhere in the scope and is free nowhere in the replacement. -/
theorem alphaConvert_keeps_meaning (hbinds : Binds b i x id) (hscope : b.child? i = some scope)
    (r : Term) :
    (b.alphaConvert r).nameless = b.nameless ∧
      (∀ path, ((b.alphaConvert r).get? path).map unnamed = (b.get? path).map unnamed) ∧
      (∀ j ≠ i, (b.alphaConvert r).child? j = b.child? j) ∧
      ∃ y, Binds (b.alphaConvert r) i y id ∧ ¬ scope.Mentions y ∧ ∀ path, ¬ r.UnboundAt y path := by
  refine ⟨nameless_alphaConvert b r, ?_, ?_, freshName x scope r, ?_, ?_, ?_⟩
  · intro path
    rw [← get?_unnamed, ← get?_unnamed, unnamed_alphaConvert]
  · intro j hj
    exact child?_alphaConvert_of_ne hbinds hj r
  · exact binds_alphaConvert hbinds hscope r
  · rw [← mem_names_iff]
    exact freshName_not_mem_names x scope r
  · intro path hunbound
    exact not_isFree_freshName x scope r (isFree_iff_exists_unboundAt.mpr ⟨path, hunbound⟩)

/-- In the scope of this `let` stands a binder of the first candidate, and below it an occurrence
that is renamed. -/
theorem alphaConvert_keeps_meaning_nested :
    let scope := lam "y'" (app (var "y" (some 0)) (var "y'" (some 1))) (some 1)
    let b := letIn "y" (var "y" none) scope (some 0)
    Binds b 1 "y" (some 0) ∧ b.child? 1 = some scope ∧
      b.alphaConvert (var "y" none) = letIn "y''" (var "y" none)
        (lam "y'" (app (var "y''" (some 0)) (var "y'" (some 1))) (some 1)) (some 0) ∧
      (b.alphaConvert (var "y" none)).nameless =
        .letIn (.free "y") (.lam (.app (.bound 1) (.bound 0))) := by
  intro scope b
  have hbinds : Binds b 1 "y" (some 0) := .letIn ..
  have hscope : b.child? 1 = some scope := rfl
  refine ⟨hbinds, hscope, by decide +kernel, ?_⟩
  rw [(alphaConvert_keeps_meaning hbinds hscope (var "y" none)).1]
  rfl

end Contractum.Term
