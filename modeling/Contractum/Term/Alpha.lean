import Contractum.Term.Basic

/-!
# Equality up to bound names

Two terms are compared with the pairs of binders that enclose both sides. A variable on
one side answers a variable on the other when each is bound by the partner of the
other's binder, or when neither is bound and the names agree.
-/

namespace Contractum.Term

/-- The partner of a name under the enclosing binders, the innermost first. -/
def partner? (pairs : List (String × String)) (name : String) : Option String :=
  pairs.lookup name

/-- Equality under enclosing binders: `there` leads from the left names to the right ones,
`back` from the right names to the left ones. -/
def alphaEqUnder (there back : List (String × String)) : Term → Term → Bool
  | var x _, var y _ =>
    if (partner? there x).isSome || (partner? back y).isSome then
      partner? there x == some y && partner? back y == some x
    else x == y
  | constr c, constr d => c == d
  | lit m, lit n => m == n
  | lam x b _, lam y c _ => b.alphaEqUnder ((x, y) :: there) ((y, x) :: back) c
  | letIn x v b _, letIn y w c _ =>
    v.alphaEqUnder there back w && b.alphaEqUnder ((x, y) :: there) ((y, x) :: back) c
  | app f a, app g b => f.alphaEqUnder there back g && a.alphaEqUnder there back b
  | arith op l r, arith op' l' r' =>
    op == op' && l.alphaEqUnder there back l' && r.alphaEqUnder there back r'
  | neg a, neg b => a.alphaEqUnder there back b
  | _, _ => false

/-- Equality up to consistent renaming of bound names. -/
def alphaEq (t u : Term) : Bool :=
  t.alphaEqUnder [] [] u

end Contractum.Term
