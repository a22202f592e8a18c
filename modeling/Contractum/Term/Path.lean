import Contractum.Term.Basic

/-!
# Positions in a term

A path lists the child to descend into at each level, counted from zero; the empty
path is the root. A walk lists the paths of a term in pre-order, so it is increasing
in the lexicographic order and holds every path that leads to a node once.
-/

namespace Contractum

/-- The children to descend into, from the root. -/
abbrev Path := List Nat

namespace Term

/-- The child at a position, if the node has that many children. -/
def child? (t : Term) (i : Nat) : Option Term :=
  t.children[i]?

/-- Puts a term in the place of a child. A node without that child stays as it is. -/
@[simp] def setChild : Term → Nat → Term → Term
  | lam param _ id, 0, u => lam param u id
  | letIn name _ body id, 0, u => letIn name u body id
  | letIn name value _ id, 1, u => letIn name value u id
  | app _ arg, 0, u => app u arg
  | app fn _, 1, u => app fn u
  | arith op _ right, 0, u => arith op u right
  | arith op left _, 1, u => arith op left u
  | neg _, 0, u => neg u
  | t, _, _ => t

/-- The subterm that a path leads to. -/
@[simp] def get? : Term → Path → Option Term
  | t, [] => some t
  | t, i :: path => (t.child? i).bind fun u => u.get? path

/-- The term with the subterm at a path replaced. Nothing changes beside the path, and
nothing at all when the path leads nowhere. -/
@[simp] def replaceAt : Term → Path → Term → Term
  | _, [], u => u
  | t, i :: path, u =>
    match t.child? i with
    | some c => t.setChild i (c.replaceAt path u)
    | none => t

/-- An entry of a walk seen from the parent of which the walked term is child `i`. -/
def seenFrom (i : Nat) (entry : Path × Term) : Path × Term :=
  (i :: entry.1, entry.2)

/-- Every node with its path, parents before children and left before right. -/
def walk : Term → List (Path × Term)
  | var name id => [([], var name id)]
  | constr name => [([], constr name)]
  | lit value => [([], lit value)]
  | lam param body id => ([], lam param body id) :: body.walk.map (seenFrom 0)
  | letIn name value body id =>
    ([], letIn name value body id) :: (value.walk.map (seenFrom 0) ++ body.walk.map (seenFrom 1))
  | app fn arg => ([], app fn arg) :: (fn.walk.map (seenFrom 0) ++ arg.walk.map (seenFrom 1))
  | arith op left right =>
    ([], arith op left right) :: (left.walk.map (seenFrom 0) ++ right.walk.map (seenFrom 1))
  | neg operand => ([], neg operand) :: operand.walk.map (seenFrom 0)

/-- The position of a child that is counted from the left by a number from zero, or from
the right by a negative one. -/
def position? (count : Nat) (index : Int) : Option Nat :=
  if 0 ≤ index then
    if index < count then some index.toNat else none
  else if 0 ≤ index + count then some (index + count).toNat else none

/-- The path that a list of indexes describes, negative ones counting from the right. -/
def resolve? : Term → List Int → Option Path
  | _, [] => some []
  | t, index :: indexes => do
    let i ← position? t.children.length index
    let u ← t.child? i
    let path ← u.resolve? indexes
    return i :: path

@[simp] theorem get?_nil (t : Term) : t.get? [] = some t := by
  cases t <;> rfl

@[simp] theorem replaceAt_nil (t u : Term) : t.replaceAt [] u = u := by
  cases t <;> rfl

/-- The nodes with the positions of their children, and the children there. -/
inductive HasChild : Term → Nat → Term → Prop
  | body (param : String) (body : Term) (id : Option Int) : HasChild (lam param body id) 0 body
  | letValue (name : String) (value body : Term) (id : Option Int) :
      HasChild (letIn name value body id) 0 value
  | letBody (name : String) (value body : Term) (id : Option Int) :
      HasChild (letIn name value body id) 1 body
  | fn (fn arg : Term) : HasChild (app fn arg) 0 fn
  | arg (fn arg : Term) : HasChild (app fn arg) 1 arg
  | left (op : Op) (left right : Term) : HasChild (arith op left right) 0 left
  | right (op : Op) (left right : Term) : HasChild (arith op left right) 1 right
  | operand (operand : Term) : HasChild (neg operand) 0 operand

theorem child?_eq_some_iff {t c : Term} {i : Nat} : t.child? i = some c ↔ HasChild t i c := by
  constructor
  · intro h
    rw [child?] at h
    cases t <;> rcases i with _ | _ | i <;> cases h <;> constructor
  · intro h
    cases h <;> rfl

theorem HasChild.mem_children {t c : Term} {i : Nat} (h : HasChild t i c) : c ∈ t.children := by
  cases h <;> simp

/-- What holds of a term when it holds of its children holds of all terms. -/
theorem children_induction {P : Term → Prop} (step : ∀ t, (∀ c ∈ t.children, P c) → P t)
    (t : Term) : P t := by
  have two {c d : Term} (hc : P c) (hd : P d) : ∀ e ∈ [c, d], P e :=
    List.forall_mem_cons.mpr ⟨hc, List.forall_mem_singleton.mpr hd⟩
  induction t with
  | var | constr | lit => exact step _ (List.forall_mem_nil _)
  | lam param body id ih => exact step _ (List.forall_mem_singleton.mpr ih)
  | letIn name value body id ihv ihb => exact step _ (two ihv ihb)
  | app fn arg ihf iha => exact step _ (two ihf iha)
  | arith op left right ihl ihr => exact step _ (two ihl ihr)
  | neg operand ih => exact step _ (List.forall_mem_singleton.mpr ih)

theorem child?_setChild_self {t c : Term} {i : Nat} (h : t.child? i = some c) (u : Term) :
    (t.setChild i u).child? i = some u := by
  unfold child? at h ⊢
  cases t <;> rcases i with _ | _ | i <;> simp_all [children, setChild]

theorem child?_setChild_of_ne {t : Term} {i j : Nat} (h : i ≠ j) (u : Term) :
    (t.setChild i u).child? j = t.child? j := by
  unfold child?
  cases t <;> rcases i with _ | _ | i <;> rcases j with _ | _ | j <;> simp_all [children, setChild]

/-- What is put at the end of a path is found there. -/
theorem get?_replaceAt {t c : Term} {path : Path} (h : t.get? path = some c) (u : Term) :
    (t.replaceAt path u).get? path = some u := by
  induction path generalizing t with
  | nil => simp
  | cons i path ih =>
    obtain ⟨d, hd, hget⟩ := Option.bind_eq_some_iff.mp h
    simp only [replaceAt, hd, get?, child?_setChild_self hd, Option.bind_some]
    exact ih hget

end Term

end Contractum
