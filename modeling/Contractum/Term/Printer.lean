import Contractum.Term.Basic
import Contractum.Text.Integer
import Contractum.Text.Quoted

/-!
# Written forms of a term

The source form is what the parser reads: parentheses stand only where the tier of a
subterm is looser than its place allows. The outline shows one node a line, indented by
its depth, and the constructor form nests the forms of the nodes with quoted names.

A term can be written when its literals can. The forms themselves are total, and the
limit is applied by `written?`.
-/

namespace Contractum

/-- The tiers of the grammar, from the loosest to the tightest. -/
inductive Tier where
  | term
  | sum
  | prod
  | unary
  | app
  | atom
deriving DecidableEq, Repr

namespace Tier

/-- The position of a tier, counted from the loosest. -/
@[simp] def rank : Tier → Nat
  | term => 0
  | sum => 1
  | prod => 2
  | unary => 3
  | app => 4
  | atom => 5

/-- The tier one step tighter. -/
@[simp] def tighter : Tier → Tier
  | term => sum
  | sum => prod
  | prod => unary
  | unary => app
  | app | atom => atom

end Tier

namespace Op

/-- Addition and subtraction share a tier, and so do multiplication and division. -/
@[simp] def tier : Op → Tier
  | add | sub => .sum
  | mul | div => .prod

end Op

namespace Term

open Text

/-- The loosest tier at which the source form of a term can be read. -/
def tier : Term → Tier
  | var _ _ | constr _ | lit _ => .atom
  | lam _ _ _ | letIn _ _ _ _ => .term
  | app _ _ => .app
  | arith op _ _ => op.tier
  | neg _ => .unary

/-- A text of this tier for a place that demands another: in parentheses if it is looser. -/
def enclose (place tier : Tier) (text : String) : String :=
  if place.rank ≤ tier.rank then text else "(" ++ text ++ ")"

/-- The source form. -/
def render : Term → String
  | var name _ => name
  | constr name => name
  | lit value => if value < 0 then "(" ++ integerText value ++ ")" else integerText value
  | lam param body _ => "\\" ++ param ++ " -> " ++ body.render
  | letIn name value body _ => "let " ++ name ++ " = " ++ value.render ++ " in " ++ body.render
  | app fn arg => enclose .app fn.tier fn.render ++ " " ++ enclose .atom arg.tier arg.render
  | arith op left right =>
    enclose op.tier left.tier left.render ++ " " ++ String.singleton op.symbol ++ " " ++
      enclose op.tier.tighter right.tier right.render
  | neg operand => "-" ++ enclose .unary operand.tier operand.render

/-- A name with its binding number, as in `[x/0]`, or with a question mark for none. -/
def bindingLabel (name : String) (id : Option Int) : String :=
  "[" ++ name ++ "/" ++ (match id with | some n => integerText n | none => "?") ++ "]"

/-- The line of a node in an outline, without its indentation. -/
def headline : Term → String
  | var name id => "var " ++ bindingLabel name id
  | constr name => "constr [" ++ name ++ "]"
  | lit value => "literal [" ++ integerText value ++ "]"
  | lam param _ id => "lambda " ++ bindingLabel param id
  | letIn name _ _ id => "let " ++ bindingLabel name id
  | app _ _ => "app"
  | arith op _ _ => String.singleton op.symbol
  | neg _ => "neg"

/-- The indentation of a line at a depth: four blanks a level. -/
def indentation (depth : Nat) : String :=
  String.ofList (List.replicate (4 * depth) ' ')

/-- The lines of an outline that begins at a depth, a node before its children. -/
def outlineLines (depth : Nat) : Term → List String
  | var name id => [indentation depth ++ (var name id).headline]
  | constr name => [indentation depth ++ (constr name).headline]
  | lit value => [indentation depth ++ (lit value).headline]
  | lam param body id =>
    (indentation depth ++ (lam param body id).headline) :: body.outlineLines (depth + 1)
  | letIn name value body id =>
    (indentation depth ++ (letIn name value body id).headline) ::
      (value.outlineLines (depth + 1) ++ body.outlineLines (depth + 1))
  | app fn arg =>
    (indentation depth ++ (app fn arg).headline) ::
      (fn.outlineLines (depth + 1) ++ arg.outlineLines (depth + 1))
  | arith op left right =>
    (indentation depth ++ (arith op left right).headline) ::
      (left.outlineLines (depth + 1) ++ right.outlineLines (depth + 1))
  | neg operand =>
    (indentation depth ++ (neg operand).headline) :: operand.outlineLines (depth + 1)

/-- The tree of a term, one node a line. -/
def outline (t : Term) : String :=
  "\n".intercalate (t.outlineLines 0)

/-- The nested forms of the nodes, without binding numbers. -/
def constructorForm : Term → String
  | var name _ => "Var(" ++ quote name ++ ")"
  | constr name => "Constr(" ++ quote name ++ ")"
  | lit value => "Literal(" ++ integerText value ++ ")"
  | lam param body _ => "Lambda(" ++ quote param ++ ", " ++ body.constructorForm ++ ")"
  | letIn name value body _ =>
    "Let(" ++ quote name ++ ", " ++ value.constructorForm ++ ", " ++ body.constructorForm ++ ")"
  | app fn arg => "App(" ++ fn.constructorForm ++ ", " ++ arg.constructorForm ++ ")"
  | arith op left right =>
    "Arith(" ++ quote (String.singleton op.symbol) ++ ", " ++ left.constructorForm ++ ", " ++
      right.constructorForm ++ ")"
  | neg operand => "Neg(" ++ operand.constructorForm ++ ")"

/-- Whether all literals of a term are within the limit on written numbers. -/
def isWritable : Term → Bool
  | var _ _ | constr _ => true
  | lit value => Text.isWritable value
  | lam _ body _ => body.isWritable
  | letIn _ value body _ => value.isWritable && body.isWritable
  | app fn arg => fn.isWritable && arg.isWritable
  | arith _ left right => left.isWritable && right.isWritable
  | neg operand => operand.isWritable

/-- A written form of a term, if its numbers can be written. -/
def written? (form : Term → String) (t : Term) : Option String :=
  if t.isWritable then some (form t) else none

end Term

end Contractum
