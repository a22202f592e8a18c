/-!
# Terms

Terms of a lambda calculus with named binders, constructors, integers and
arithmetic. Every binder and every variable carries a binding number, or none.

Binding numbers are labels only: they take part in no rule of reduction, and two
terms are the same term when they are equal once the numbers are erased.
-/

namespace Contractum

/-- The four operators of arithmetic. -/
inductive Op where
  | add
  | sub
  | mul
  | div
deriving DecidableEq, Repr

namespace Op

/-- The character that writes an operator. -/
def symbol : Op → Char
  | add => '+'
  | sub => '-'
  | mul => '*'
  | div => '/'

/-- The operator that a text writes. -/
def ofSymbol? (s : String) : Option Op :=
  [add, sub, mul, div].find? fun op => s.toList == [op.symbol]

/-- The value of an operator on two integers. Division rounds down, and has no
value when the divisor is zero. -/
def eval? : Op → Int → Int → Option Int
  | add, m, n => some (m + n)
  | sub, m, n => some (m - n)
  | mul, m, n => some (m * n)
  | div, m, n => if n = 0 then none else some (m.fdiv n)

@[simp] theorem ofSymbol?_symbol (op : Op) : ofSymbol? (String.singleton op.symbol) = some op := by
  cases op <;> decide

@[simp] theorem eval?_eq_none_iff {op : Op} {m n : Int} : op.eval? m n = none ↔ op = div ∧ n = 0 := by
  cases op <;> simp [eval?]

end Op

/-- Terms with named binders. A `let` binds its name in the body only. -/
inductive Term where
  | var (name : String) (id : Option Int)
  | constr (name : String)
  | lit (value : Int)
  | lam (param : String) (body : Term) (id : Option Int)
  | letIn (name : String) (value body : Term) (id : Option Int)
  | app (fn arg : Term)
  | arith (op : Op) (left right : Term)
  | neg (operand : Term)
deriving DecidableEq, Repr

namespace Term

/-- The subterms one level below, from left to right. -/
@[simp] def children : Term → List Term
  | var _ _ | constr _ | lit _ => []
  | lam _ body _ => [body]
  | letIn _ value body _ => [value, body]
  | app fn arg => [fn, arg]
  | arith _ left right => [left, right]
  | neg operand => [operand]

/-- The number of nodes. -/
@[simp] def size : Term → Nat
  | var _ _ | constr _ | lit _ => 1
  | lam _ body _ => body.size + 1
  | letIn _ value body _ => value.size + body.size + 1
  | app fn arg => fn.size + arg.size + 1
  | arith _ left right => left.size + right.size + 1
  | neg operand => operand.size + 1

/-- The term without its binding numbers. -/
@[simp] def eraseIds : Term → Term
  | var name _ => var name none
  | constr name => constr name
  | lit value => lit value
  | lam param body _ => lam param body.eraseIds none
  | letIn name value body _ => letIn name value.eraseIds body.eraseIds none
  | app fn arg => app fn.eraseIds arg.eraseIds
  | arith op left right => arith op left.eraseIds right.eraseIds
  | neg operand => neg operand.eraseIds

/-- Equality up to binding numbers. -/
def same (t u : Term) : Bool :=
  t.eraseIds = u.eraseIds

/-- The name of a node's form. -/
def formName : Term → String
  | var _ _ => "Var"
  | constr _ => "Constr"
  | lit _ => "Literal"
  | lam _ _ _ => "Lambda"
  | letIn _ _ _ _ => "Let"
  | app _ _ => "App"
  | arith _ _ _ => "Arith"
  | neg _ => "Neg"

theorem size_pos (t : Term) : 0 < t.size := by
  cases t <;> simp [size]

@[simp] theorem eraseIds_eraseIds (t : Term) : t.eraseIds.eraseIds = t.eraseIds := by
  induction t <;> simp_all [eraseIds]

@[simp] theorem size_eraseIds (t : Term) : t.eraseIds.size = t.size := by
  induction t <;> simp_all [eraseIds, size]

@[simp] theorem same_iff {t u : Term} : t.same u = true ↔ t.eraseIds = u.eraseIds := by
  simp [same]

end Term

end Contractum
