import Contractum.Term.Redex

/-!
# Live terms

The nodes of a live term bear marks, by which a node is known wherever it is seen: in the
live term itself and in the terms that were held back from it. A change of a node is seen
in all of them.

A step leaves the node of the redex its mark. After a beta step the children of the node
are those of the function's body, so nodes held inside that body are in the term at their
new place; the argument was copied for each occurrence, with marks of its own.
-/

namespace Contractum

/-- One mark for each node of a term, laid out like the term. -/
inductive Marks where
  | leaf (mark : Nat)
  | one (mark : Nat) (child : Marks)
  | two (mark : Nat) (left right : Marks)
deriving DecidableEq, Repr

namespace Marks

/-- The mark of the root. -/
def top : Marks → Nat
  | leaf mark => mark
  | one mark _ => mark
  | two mark _ _ => mark

/-- The same marks but for that of the root. -/
def setTop (mark : Nat) : Marks → Marks
  | leaf _ => leaf mark
  | one _ child => one mark child
  | two _ left right => two mark left right

/-- The marks of the first child. -/
def first? : Marks → Option Marks
  | leaf _ => none
  | one _ child => some child
  | two _ left _ => some left

/-- The marks of the second child. -/
def second? : Marks → Option Marks
  | two _ _ right => some right
  | _ => none

/-- The mark of an old node, or an unused one. -/
def topOf (old : Option Marks) : StateM Nat Nat :=
  match old with
  | some m => pure m.top
  | none => modifyGet fun supply => (supply, supply + 1)

/-- Marks for a term that takes the place of another: where that one had a node its mark is
kept, and all other nodes get unused marks. -/
def follow : Option Marks → Term → StateM Nat Marks
  | old, .var _ _ | old, .constr _ | old, .lit _ => return leaf (← topOf old)
  | old, .lam _ body _ | old, .neg body => do
    let mark ← topOf old
    let child ← follow (old.bind first?) body
    return one mark child
  | old, .letIn _ left right _ | old, .app left right | old, .arith _ left right => do
    let mark ← topOf old
    let child ← follow (old.bind first?) left
    let other ← follow (old.bind second?) right
    return two mark child other

end Marks

/-- A term with the marks of its nodes. -/
structure View where
  term : Term
  marks : Marks
deriving DecidableEq, Repr

namespace View

/-- The part of a view where a node bears a mark. -/
def findUnder (mark : Nat) : Term → Marks → Option View
  | .lam x b id, .one m c =>
    if m = mark then some ⟨.lam x b id, .one m c⟩ else findUnder mark b c
  | .neg a, .one m c => if m = mark then some ⟨.neg a, .one m c⟩ else findUnder mark a c
  | .letIn x v b id, .two m c d =>
    if m = mark then some ⟨.letIn x v b id, .two m c d⟩
    else (findUnder mark v c).or (findUnder mark b d)
  | .app f a, .two m c d =>
    if m = mark then some ⟨.app f a, .two m c d⟩ else (findUnder mark f c).or (findUnder mark a d)
  | .arith op l r, .two m c d =>
    if m = mark then some ⟨.arith op l r, .two m c d⟩
    else (findUnder mark l c).or (findUnder mark r d)
  | t, marks => if marks.top = mark then some ⟨t, marks⟩ else none

/-- The part of a view where a node bears a mark. -/
def find? (mark : Nat) (v : View) : Option View :=
  findUnder mark v.term v.marks

/-- Shows the nodes of a view as they are in the changed views that hold them. -/
def refreshUnder (changed : List View) : Term → Marks → View
  | t, marks =>
    match changed.findSome? (find? marks.top) with
    | some v => v
    | none =>
      match t, marks with
      | .lam x b id, .one m c =>
        let v := refreshUnder changed b c
        ⟨.lam x v.term id, .one m v.marks⟩
      | .neg a, .one m c =>
        let v := refreshUnder changed a c
        ⟨.neg v.term, .one m v.marks⟩
      | .letIn x u b id, .two m c d =>
        let v := refreshUnder changed u c
        let w := refreshUnder changed b d
        ⟨.letIn x v.term w.term id, .two m v.marks w.marks⟩
      | .app f a, .two m c d =>
        let v := refreshUnder changed f c
        let w := refreshUnder changed a d
        ⟨.app v.term w.term, .two m v.marks w.marks⟩
      | .arith op l r, .two m c d =>
        let v := refreshUnder changed l c
        let w := refreshUnder changed r d
        ⟨.arith op v.term w.term, .two m v.marks w.marks⟩
      | t, marks => ⟨t, marks⟩

/-- Shows the nodes of a view as they are in the changed views that hold them. -/
def refresh (changed : List View) (v : View) : View :=
  refreshUnder changed v.term v.marks

/-- The part of a view that a path leads to. -/
def get? : Term → Marks → Path → Option View
  | t, marks, [] => some ⟨t, marks⟩
  | t, marks, i :: path => do
    let c ← t.child? i
    let m ← if i = 0 then marks.first? else marks.second?
    get? c m path

end View

/-- A live term, the views held under labels, and the first unused mark. -/
structure Live where
  root : View
  held : List (String × View) := []
  supply : Nat
deriving Repr

/-- Operations on a live term. -/
abbrev LiveAction := StateM Live

namespace Live

/-- Gives unused marks to the nodes of a term, but for those of an old view. -/
def marksFor (old : Option Marks) (t : Term) : LiveAction Marks := do
  let live ← get
  let (marks, supply) := (Marks.follow old t).run live.supply
  set { live with supply }
  return marks

/-- A live term of which nothing is held. -/
def ofTerm (t : Term) : Live :=
  let (marks, supply) := (Marks.follow none t).run 0
  ⟨⟨t, marks⟩, [], supply⟩

/-- Makes changed views seen everywhere. -/
def publish (changed : List View) : LiveAction Unit :=
  modify fun live => { live with
    root := live.root.refresh changed
    held := live.held.map fun (label, v) => (label, v.refresh changed) }

/-- Puts another term in the place of a node's contents. Nodes at the same positions keep
their marks. -/
def renew (v : View) (t : Term) : LiveAction Unit := do
  publish [⟨t, ← marksFor (some v.marks) t⟩]

/-- Puts another term in the place of a node's contents. Only the node itself keeps its
mark. -/
def overwrite (v : View) (t : Term) : LiveAction Unit := do
  publish [⟨t, (← marksFor none t).setTop v.marks.top⟩]

/-- Contracts the redex at a node. The function that a beta step takes apart is no longer in
the term, and its body is seen with the argument put in. -/
def reduce (v : View) : LiveAction (Except StepFault (Option RedexKind)) := do
  match v.term.contract with
  | .error fault => return .error fault
  | .ok t =>
    match v.term, v.marks with
    | .app (.lam x _ id) _, .two m (.one n body) _ =>
      let marks ← marksFor (some body) t
      publish [⟨t, marks.setTop m⟩, ⟨.lam x t id, .one n marks⟩]
    | _, marks => publish [⟨t, .leaf marks.top⟩]
    return .ok v.term.redexKind?

/-- Holds a view under a label. -/
def hold (label : String) (v : View) : LiveAction Unit :=
  modify fun live => { live with held := (label, v) :: live.held }

/-- Holds a copy of the live term under a label. -/
def snapshot (label : String) : LiveAction Unit := do
  let t := (← get).root.term
  hold label ⟨t, ← marksFor none t⟩

/-- The view held under a label. -/
def held? (live : Live) (label : String) : Option View :=
  live.held.lookup label

/-- Makes a view the live term. -/
def setRoot (v : View) : LiveAction Unit :=
  modify fun live => { live with root := v }

end Live

end Contractum
