import Contractum.Term.Name

/-!
# Substitution

Substitution puts a term in the place of the free occurrences of a name. A binder that
would catch a free name of the replacement gets a fresh name first, whether or not an
occurrence lies in its scope, and a binder of the substituted name ends the descent.

The name of a binder is compared with the substituted one before it is made fresh, so a
fresh name that equals the substituted one does not end the descent.
-/

namespace Contractum.Term

/-- Puts `r` in the place of the free occurrences of `x`. -/
@[simp] def subst (t : Term) (x : String) (r : Term) : Term :=
  match t with
  | var name id => if name = x then r else var name id
  | constr name => constr name
  | lit value => lit value
  | lam param body id =>
    if param = x then lam param body id
    else if r.isFree param then
      let fresh := freshName param body r
      lam fresh ((body.rename param fresh).subst x r) id
    else lam param (body.subst x r) id
  | letIn name value body id =>
    if name = x then letIn name (value.subst x r) body id
    else if r.isFree name then
      let fresh := freshName name body r
      letIn fresh (value.subst x r) ((body.rename name fresh).subst x r) id
    else letIn name (value.subst x r) (body.subst x r) id
  | app fn arg => app (fn.subst x r) (arg.subst x r)
  | arith op left right => arith op (left.subst x r) (right.subst x r)
  | neg operand => neg (operand.subst x r)
termination_by t.size
decreasing_by all_goals simp only [size, size_rename]; omega

end Contractum.Term
