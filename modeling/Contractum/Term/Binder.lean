import Contractum.Term.Path

/-!
# The binder of a variable

A variable belongs to the innermost enclosing binder of its name in whose scope it
lies. The value of a `let` is not in the scope of that `let`.
-/

namespace Contractum.Term

/-- Whether a node binds `x` in its child `i`. -/
@[simp] def bindsIn (x : String) (i : Nat) : Term → Bool
  | lam param _ _ => param == x && i == 0
  | letIn name _ _ _ => name == x && i == 1
  | _ => false

/-- The path of the innermost binder of `x` on the way down a path. -/
@[simp] def binderAbove? (x : String) : Term → Path → Option Path
  | _, [] => none
  | t, i :: path =>
    (t.child? i).bind fun c =>
      match c.binderAbove? x path with
      | some found => some (i :: found)
      | none => if t.bindsIn x i then some [] else none

/-- The path of the binder of the variable at a path, if a variable is there and is bound. -/
def binderOf? (t : Term) (path : Path) : Option Path :=
  match t.get? path with
  | some (var x _) => t.binderAbove? x path
  | _ => none

/-- The name and the number of a node that binds. -/
def binding? : Term → Option (String × Option Int)
  | lam param _ id => some (param, id)
  | letIn name _ _ id => some (name, id)
  | _ => none

end Contractum.Term
