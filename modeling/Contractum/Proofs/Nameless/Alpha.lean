import Contractum.Proofs.Nameless.Form
import Contractum.Term.Alpha

/-!
# The comparison up to bound names

The comparison keeps the pairs of binders that enclose both sides, and a pair stays when a
binder further in hides one of its names. A hidden pair makes no partners: each of two partners
leads to the other, so the pair that both are found in is the innermost with either name. Two
variables are partners exactly when they count the same number of binders, and the comparison
is equality of nameless forms.
-/

namespace Contractum.Term

variable {x y a b : String} {pairs : List (String × String)}

@[simp] theorem partner?_cons_self : partner? ((x, y) :: pairs) x = some y :=
  List.lookup_cons_self

theorem partner?_cons_of_ne (h : x ≠ a) : partner? ((a, b) :: pairs) x = partner? pairs x := by
  rw [partner?, partner?, List.lookup_cons, beq_eq_false_iff_ne.mpr h]

/-- A name has a partner when some binder on its side has the name. -/
theorem isSome_partner? (pairs : List (String × String)) (x : String) :
    (partner? pairs x).isSome = ((pairs.map Prod.fst).idxOf? x).isSome := by
  induction pairs with
  | nil => rfl
  | cons pair pairs ih =>
      obtain ⟨a, b⟩ := pair
      by_cases hxa : x = a
      · subst hxa
        simp [List.idxOf?_cons]
      · rw [partner?_cons_of_ne hxa, ih]
        simp [List.idxOf?_cons, Ne.symm hxa]

/-- Two names are partners of each other exactly when the innermost binders of both are the two
sides of one pair. -/
theorem partners_iff (pairs : List (String × String)) (x y : String) :
    partner? pairs x = some y ∧ partner? (pairs.map Prod.swap) y = some x ↔
      ∃ i, (pairs.map Prod.fst).idxOf? x = some i ∧ (pairs.map Prod.snd).idxOf? y = some i := by
  induction pairs with
  | nil => simp [partner?]
  | cons pair pairs ih =>
      obtain ⟨a, b⟩ := pair
      simp only [List.map_cons, Prod.swap_prod_mk]
      by_cases hxa : x = a
      · by_cases hyb : y = b
        · simp [hxa, hyb, List.idxOf?_cons]
        · -- the innermost pair has the left name, and leads it elsewhere
          simp [hxa, List.idxOf?_cons, Ne.symm hyb]
      · rw [partner?_cons_of_ne hxa]
        by_cases hyb : y = b
        · simp [hyb, List.idxOf?_cons, Ne.symm hxa]
        · rw [partner?_cons_of_ne hyb, ih]
          simp only [List.idxOf?_cons, beq_iff_eq, Ne.symm hxa, Ne.symm hyb, if_false,
            Option.map_eq_some_iff]
          constructor
          · rintro ⟨i, hi, hj⟩
            exact ⟨i + 1, ⟨i, hi, rfl⟩, i, hj, rfl⟩
          · rintro ⟨_, ⟨i, hi, rfl⟩, j, hj, hji⟩
            obtain rfl : j = i := Nat.add_right_cancel hji
            exact ⟨j, hi, hj⟩

/-- Variables are compared by the binders that they count, free ones by their names. -/
theorem alphaEqUnder_var_iff (pairs : List (String × String)) (x y : String) (i j : Option Int) :
    (var x i).alphaEqUnder pairs (pairs.map Prod.swap) (var y j) = true ↔
      (var x i).namelessUnder (pairs.map Prod.fst) =
        (var y j).namelessUnder (pairs.map Prod.snd) := by
  have hpartners := partners_iff pairs x y
  have hleft := isSome_partner? pairs x
  have hright : (partner? (pairs.map Prod.swap) y).isSome =
      ((pairs.map Prod.snd).idxOf? y).isSome := by
    rw [isSome_partner?, List.map_map]
    rfl
  rw [alphaEqUnder, hleft, hright, namelessUnder, namelessUnder]
  cases hx : (pairs.map Prod.fst).idxOf? x with
  | none =>
      cases hy : (pairs.map Prod.snd).idxOf? y with
      | none => simp
      | some n => simpa [hx] using hpartners
  | some m =>
      cases hy : (pairs.map Prod.snd).idxOf? y with
      | none => simpa [hy] using hpartners
      | some n =>
          simp only [hx, hy, Option.some_inj, exists_eq_left'] at hpartners
          simpa using hpartners.trans eq_comm

/-- Below pairs of binders the comparison is equality of the nameless forms on both sides. -/
theorem alphaEqUnder_iff (pairs : List (String × String)) (t u : Term) :
    t.alphaEqUnder pairs (pairs.map Prod.swap) u = true ↔
      t.namelessUnder (pairs.map Prod.fst) = u.namelessUnder (pairs.map Prod.snd) := by
  -- nodes of different forms are told apart on both sides, so one form of `u` is left in each case
  induction t generalizing pairs u with
  | var x i =>
      cases u with
      | var y j => exact alphaEqUnder_var_iff pairs x y i j
      | _ => grind [alphaEqUnder, namelessUnder]
  | constr c =>
      cases u with
      | constr d => simp [alphaEqUnder]
      | _ => grind [alphaEqUnder, namelessUnder]
  | lit m =>
      cases u with
      | lit n => simp [alphaEqUnder]
      | _ => grind [alphaEqUnder, namelessUnder]
  | lam x b i ih =>
      cases u with
      | lam y c j =>
          rw [alphaEqUnder, namelessUnder, namelessUnder, Nameless.lam.injEq]
          exact ih ((x, y) :: pairs) c
      | _ => grind [alphaEqUnder, namelessUnder]
  | letIn x v b i ihv ihb =>
      cases u with
      | letIn y w c j =>
          rw [alphaEqUnder, namelessUnder, namelessUnder, Nameless.letIn.injEq, Bool.and_eq_true]
          exact and_congr (ihv pairs w) (ihb ((x, y) :: pairs) c)
      | _ => grind [alphaEqUnder, namelessUnder]
  | app f a ihf iha =>
      cases u with
      | app g b =>
          rw [alphaEqUnder, namelessUnder, namelessUnder, Nameless.app.injEq, Bool.and_eq_true]
          exact and_congr (ihf pairs g) (iha pairs b)
      | _ => grind [alphaEqUnder, namelessUnder]
  | arith op l r ihl ihr =>
      cases u with
      | arith op' l' r' =>
          rw [alphaEqUnder, namelessUnder, namelessUnder, Nameless.arith.injEq, Bool.and_eq_true,
            Bool.and_eq_true, beq_iff_eq, and_assoc]
          exact and_congr_right fun _ => and_congr (ihl pairs l') (ihr pairs r')
      | _ => grind [alphaEqUnder, namelessUnder]
  | neg a ih =>
      cases u with
      | neg b =>
          rw [alphaEqUnder, namelessUnder, namelessUnder, Nameless.neg.injEq]
          exact ih pairs b
      | _ => grind [alphaEqUnder, namelessUnder]

/-- Terms are equal up to bound names exactly when their nameless forms are equal. -/
theorem alphaEq_iff (t u : Term) : t.alphaEq u = true ↔ t.nameless = u.nameless :=
  alphaEqUnder_iff [] t u

/-- Equality up to bound names is equality of nameless forms, and so an equivalence. -/
theorem alphaEq_decides_nameless :
    (∀ t u : Term, t.alphaEq u = true ↔ t.nameless = u.nameless) ∧
      Equivalence fun t u : Term => t.alphaEq u = true := by
  refine ⟨alphaEq_iff, ?_⟩
  simp only [alphaEq_iff]
  exact ⟨fun _ => rfl, Eq.symm, Eq.trans⟩

/-- The pair of the outer binders is still there below the inner ones, and does not make the
outer `x` on the left a partner of the inner `x` on the right. -/
example :
    (lam "x" (lam "y" (var "x" none) none) none).alphaEq
      (lam "x" (lam "x" (var "x" none) none) none) = false := by
  decide

end Contractum.Term
