import Contractum.Term.Printer
import Contractum.Token.Basic

/-!
# The grammar of terms

A derivation gives a list of tokens a tree, at a tier of the grammar. Sums, products and
applications group to the left, so their left parts are of their own tier and their right
parts of the next tighter one. The bodies of binders are of the loosest tier, and so reach
as far to the right as they can.

Scope plays no part here: trees may have free variables, and carry no binding numbers.
-/

namespace Contractum

/-- The token that stands between the operands of an operator. -/
def Op.mark : Op → Mark
  | add => .plus
  | sub => .minus
  | mul => .star
  | div => .slash

theorem Tier.rank_injective : Function.Injective Tier.rank := by
  intro tier place h
  cases tier <;> cases place <;> first | rfl | cases h

theorem Tier.rank_le_atom (tier : Tier) : tier.rank ≤ Tier.atom.rank := by
  cases tier <;> decide

/-- The lists of tokens that each tier of the grammar derives, with their trees. -/
inductive Derives : Tier → List Token → Term → Prop
  | letIn {x : String} {vs bs : List Token} {v b : Term}
      (value : Derives .term vs v) (body : Derives .term bs b) :
      Derives .term
        (.mark .letWord :: .var x :: .mark .equals :: (vs ++ .mark .inWord :: bs))
        (.letIn x v b none)
  | lam {x : String} {bs : List Token} {b : Term} (body : Derives .term bs b) :
      Derives .term (.mark .lambda :: .var x :: .mark .arrow :: bs) (.lam x b none)
  | ofSum {ts : List Token} {t : Term} (sum : Derives .sum ts t) : Derives .term ts t
  | sum {op : Op} {ls rs : List Token} {l r : Term} (tier : op.tier = .sum)
      (left : Derives .sum ls l) (right : Derives .prod rs r) :
      Derives .sum (ls ++ .mark op.mark :: rs) (.arith op l r)
  | ofProd {ts : List Token} {t : Term} (prod : Derives .prod ts t) : Derives .sum ts t
  | prod {op : Op} {ls rs : List Token} {l r : Term} (tier : op.tier = .prod)
      (left : Derives .prod ls l) (right : Derives .unary rs r) :
      Derives .prod (ls ++ .mark op.mark :: rs) (.arith op l r)
  | ofUnary {ts : List Token} {t : Term} (unary : Derives .unary ts t) : Derives .prod ts t
  | neg {ts : List Token} {t : Term} (operand : Derives .unary ts t) :
      Derives .unary (.mark .minus :: ts) (.neg t)
  | ofApp {ts : List Token} {t : Term} (app : Derives .app ts t) : Derives .unary ts t
  | app {fs as : List Token} {f a : Term} (fn : Derives .app fs f) (arg : Derives .atom as a) :
      Derives .app (fs ++ as) (.app f a)
  | ofAtom {ts : List Token} {t : Term} (atom : Derives .atom ts t) : Derives .app ts t
  | var (x : String) : Derives .atom [.var x] (.var x none)
  | constr (c : String) : Derives .atom [.constr c] (.constr c)
  | literal (n : Nat) : Derives .atom [.literal n] (.lit n)
  | parens {ts : List Token} {t : Term} (inner : Derives .term ts t) :
      Derives .atom (.mark .opening :: (ts ++ [.mark .closing])) t

namespace Derives

variable {tier place : Tier} {ts : List Token} {t : Term}

/-- Trees carry no binding numbers. -/
theorem eraseIds (h : Derives tier ts t) : t.eraseIds = t := by
  induction h with
  | letIn _ _ ihv ihb => rw [Term.eraseIds, ihv, ihb]
  | lam _ ih => rw [Term.eraseIds, ih]
  | sum _ _ _ ihl ihr => rw [Term.eraseIds, ihl, ihr]
  | prod _ _ _ ihl ihr => rw [Term.eraseIds, ihl, ihr]
  | neg _ ih => rw [Term.eraseIds, ih]
  | app _ _ ihf iha => rw [Term.eraseIds, ihf, iha]
  | var | constr | literal => rfl
  | ofSum _ ih | ofProd _ ih | ofUnary _ ih | ofApp _ ih | ofAtom _ ih | parens _ ih => exact ih

/-- What the next tighter tier derives is derived. -/
theorem widen (h : Derives tier.tighter ts t) : Derives tier ts t := by
  cases tier with
  | term => exact .ofSum h
  | sum => exact .ofProd h
  | prod => exact .ofUnary h
  | unary => exact .ofApp h
  | app => exact .ofAtom h
  | atom => exact h

/-- What a tighter tier derives is derived by every looser one. -/
theorem loosen (h : Derives tier ts t) (hrank : place.rank ≤ tier.rank) : Derives place ts t := by
  induction hsteps : tier.rank - place.rank generalizing place with
  | zero =>
      have hplace : place = tier := Tier.rank_injective (by omega)
      rwa [hplace]
  | succ n ih =>
      have hnext : place.tighter.rank = place.rank + 1 := by
        cases place with
        | atom =>
            have hle := Tier.rank_le_atom tier
            omega
        | term | sum | prod | unary | app => rfl
      exact (ih (by omega) (by omega)).widen

/-- Whatever a tier derives is derived by the loosest one. -/
theorem loosest (h : Derives tier ts t) : Derives .term ts t :=
  h.loosen (Nat.zero_le _)

end Derives

end Contractum
