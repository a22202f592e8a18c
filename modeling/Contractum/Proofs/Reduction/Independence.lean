import Mathlib.Control.Monad.Basic
import Contractum.Proofs.Reduction.Listing

/-!
# Independent steps

A step replaces one subterm. Every path into another branch leads to what it led to before, so
steps in different branches do not see each other and can be taken in either order. Above the
place of a step the nodes keep their forms, so redexes stay redexes there, and only the parent of
the place can become one.
-/

namespace Contractum

/-- Paths into different branches, of which neither leads through the end of the other. -/
def Path.Beside (p q : Path) : Prop :=
  ¬ p <+: q ∧ ¬ q <+: p

instance (p q : Path) : Decidable (p.Beside q) :=
  inferInstanceAs (Decidable (_ ∧ _))

namespace Path

variable {p q : Path} {i : Nat}

theorem Beside.symm (h : p.Beside q) : q.Beside p :=
  ⟨h.2, h.1⟩

theorem beside_cons_iff : Beside (i :: p) (i :: q) ↔ p.Beside q := by
  simp only [Beside, List.cons_prefix_cons, true_and]

/-- A path that does not lead through `p` goes into another branch, or ends above `p`. -/
theorem beside_or_above (h : ¬ p <+: q) : p.Beside q ∨ ∃ i r, p = q ++ i :: r := by
  by_cases hqp : q <+: p
  · obtain ⟨r, rfl⟩ := hqp
    cases r with
    | nil =>
        rw [List.append_nil] at h
        exact absurd List.prefix_rfl h
    | cons i r => exact .inr ⟨i, r, rfl⟩
  · exact .inl ⟨h, hqp⟩

end Path

namespace Term

variable {t u v c d e : Term} {p q r : Path} {i j : Nat} {kind : RedexKind}

theorem setChild_setChild_self (t c d : Term) (i : Nat) :
    (t.setChild i c).setChild i d = t.setChild i d := by
  cases t <;> rcases i with _ | _ | i <;> rfl

theorem setChild_comm (t c d : Term) (h : i ≠ j) :
    (t.setChild i c).setChild j d = (t.setChild j d).setChild i c := by
  cases t <;> rcases i with _ | _ | i <;> rcases j with _ | _ | j <;>
    first | rfl | exact absurd rfl h

theorem replaceAt_cons_of_child? (h : t.child? i = some c) :
    t.replaceAt (i :: p) u = t.setChild i (c.replaceAt p u) := by
  rw [replaceAt, h]

theorem replaceAt_cons_of_none (h : t.child? i = none) : t.replaceAt (i :: p) u = t := by
  rw [replaceAt, h]

/-- In other branches every path leads to what it led to before. -/
theorem get?_replaceAt_of_beside (h : p.Beside q) : (t.replaceAt p u).get? q = t.get? q := by
  induction p generalizing t q with
  | nil => exact absurd List.nil_prefix h.1
  | cons i p ih =>
      cases q with
      | nil => exact absurd List.nil_prefix h.2
      | cons j q =>
          cases hc : t.child? i with
          | none => rw [replaceAt_cons_of_none hc]
          | some c =>
              rw [replaceAt_cons_of_child? hc]
              by_cases hij : i = j
              · subst hij
                rw [get?, get?, child?_setChild_self hc, hc, Option.bind_some, Option.bind_some,
                  ih (Path.beside_cons_iff.mp h)]
              · rw [get?, get?, child?_setChild_of_ne hij]

/-- Replacements in different branches can be made in either order. -/
theorem replaceAt_comm (h : p.Beside q) (hp : t.get? p = some c) (hq : t.get? q = some d) :
    (t.replaceAt p u).replaceAt q v = (t.replaceAt q v).replaceAt p u := by
  induction p generalizing t q with
  | nil => exact absurd List.nil_prefix h.1
  | cons i p ih =>
      cases q with
      | nil => exact absurd List.nil_prefix h.2
      | cons j q =>
          obtain ⟨a, ha, hp⟩ := Option.bind_eq_some_iff.mp hp
          obtain ⟨b, hb, hq⟩ := Option.bind_eq_some_iff.mp hq
          rw [replaceAt_cons_of_child? ha, replaceAt_cons_of_child? hb]
          by_cases hij : i = j
          · subst hij
            obtain rfl : a = b := Option.some_inj.mp (ha.symm.trans hb)
            rw [replaceAt_cons_of_child? (child?_setChild_self ha _),
              replaceAt_cons_of_child? (child?_setChild_self ha _), setChild_setChild_self,
              setChild_setChild_self, ih (Path.beside_cons_iff.mp h) hp hq]
          · have hb' : (t.setChild i (a.replaceAt p u)).child? j = some b := by
              rw [child?_setChild_of_ne hij, hb]
            have ha' : (t.setChild j (b.replaceAt q v)).child? i = some a := by
              rw [child?_setChild_of_ne (Ne.symm hij), ha]
            rw [replaceAt_cons_of_child? hb', replaceAt_cons_of_child? ha', setChild_comm _ _ _ hij]

theorem get?_append (t : Term) (q r : Path) :
    t.get? (q ++ r) = (t.get? q).bind fun node => node.get? r := by
  induction q generalizing t with
  | nil => rw [List.nil_append, get?_nil, Option.bind_some]
  | cons i q ih => simp only [List.cons_append, get?, ih, Option.bind_assoc]

/-- Above the replaced subterm every path leads to the old node, with the replacement in it. -/
theorem get?_replaceAt_above (t u : Term) (q r : Path) :
    (t.replaceAt (q ++ r) u).get? q = (t.get? q).map (·.replaceAt r u) := by
  induction q generalizing t with
  | nil => rw [List.nil_append, get?_nil, get?_nil, Option.map_some]
  | cons i q ih =>
      rw [List.cons_append, get?, get?]
      cases hc : t.child? i with
      | none => rw [replaceAt_cons_of_none hc, hc, Option.bind_none, Option.map_none]
      | some c =>
          rw [replaceAt_cons_of_child? hc, child?_setChild_self hc, Option.bind_some,
            Option.bind_some, ih]

/-- A redex stays one when a redex among its children is replaced, since the children that make
it a redex are functions and literals. -/
theorem redexKind?_setChild_of_redex (hchild : HasChild t i c) (hc : c.redexKind? ≠ none)
    (ht : t.redexKind? = some kind) : (t.setChild i d).redexKind? = some kind := by
  unfold redexKind? at ht
  split at ht
  · cases hchild with
    | fn => exact absurd rfl hc
    | arg => exact ht
  · cases hchild with
    | left | right => exact absurd rfl hc
  · cases hchild with
    | operand => exact absurd rfl hc
  · cases ht

/-- A child that keeps its form decides as before whether its parent is a redex. -/
theorem redexKind?_setChild_setChild (hchild : HasChild t i c) (hinner : HasChild c j e) :
    (t.setChild i (c.setChild j d)).redexKind? = t.redexKind? := by
  cases hchild with
  | body | letValue | letBody => rfl
  | fn | left | operand => cases hinner <;> rfl
  | arg fn => cases fn <;> rfl
  | right op left => cases left <;> cases hinner <;> rfl

/-- What a step at a redex below a node changes about the node: at most it becomes a redex, and
only when the step is at a child of it. -/
theorem redexKind?_replaceAt_below (hget : t.get? (i :: r) = some c) (hc : c.redexKind? ≠ none)
    (u : Term) (kind : RedexKind) :
    (t.redexKind? = some kind → (t.replaceAt (i :: r) u).redexKind? = some kind) ∧
      ((t.replaceAt (i :: r) u).redexKind? = some kind → t.redexKind? = some kind ∨ r = []) := by
  obtain ⟨d, hd, hget⟩ := Option.bind_eq_some_iff.mp hget
  have hchild : HasChild t i d := child?_eq_some_iff.mp hd
  rw [replaceAt_cons_of_child? hd]
  cases r with
  | nil =>
      rw [get?_nil, Option.some_inj] at hget
      subst hget
      exact ⟨redexKind?_setChild_of_redex hchild hc, fun _ => .inr rfl⟩
  | cons j r =>
      obtain ⟨e, he, -⟩ := Option.bind_eq_some_iff.mp hget
      rw [replaceAt_cons_of_child? he,
        redexKind?_setChild_setChild hchild (child?_eq_some_iff.mp he)]
      exact ⟨id, .inl⟩

/-- A step at a listed redex replaces that redex by what it becomes. -/
theorem exists_contract_of_listed (hlisted : (p, kind) ∈ t.redexes)
    (hstep : t.contractAt p = .ok u) :
    ∃ redex v, t.get? p = some redex ∧ redex.redexKind? = some kind ∧ redex.contract = .ok v ∧
      u = t.replaceAt p v := by
  obtain ⟨redex, hget, hkind⟩ := mem_redexes_iff.mp hlisted
  rcases contractAt_eq_ok_iff.mp hstep with ⟨hnone, -⟩ | ⟨redex', v, hget', hv, rfl⟩
  · rw [hnone] at hget
    contradiction
  · obtain rfl : redex = redex' := Option.some_inj.mp (hget.symm.trans hget')
    exact ⟨redex, v, hget, hkind, hv, rfl⟩

/-- In other branches the same redexes are listed as before. -/
theorem mem_redexes_replaceAt_of_beside (h : p.Beside q) :
    (q, kind) ∈ (t.replaceAt p u).redexes ↔ (q, kind) ∈ t.redexes := by
  rw [mem_redexes_iff, mem_redexes_iff, get?_replaceAt_of_beside h]

/-- Above a redex that is replaced all redexes stay listed, and only its parent can be added. -/
theorem mem_redexes_replaceAt_above (hget : t.get? (q ++ i :: r) = some c)
    (hc : c.redexKind? ≠ none) :
    ((q, kind) ∈ t.redexes → (q, kind) ∈ (t.replaceAt (q ++ i :: r) u).redexes) ∧
      ((q, kind) ∈ (t.replaceAt (q ++ i :: r) u).redexes → (q, kind) ∈ t.redexes ∨ r = []) := by
  rw [get?_append] at hget
  obtain ⟨node, hnode, hget⟩ := Option.bind_eq_some_iff.mp hget
  obtain ⟨hkeep, hnew⟩ := redexKind?_replaceAt_below hget hc u kind
  have hnode' : (t.replaceAt (q ++ i :: r) u).get? q = some (node.replaceAt (i :: r) u) := by
    rw [get?_replaceAt_above, hnode, Option.map_some]
  simp only [mem_redexes_iff, hnode, hnode', Option.some_inj, exists_eq_left']
  exact ⟨hkeep, hnew⟩

/-- A step disturbs nothing in other branches and no redex above its place: every path into
another branch leads to what it led to before, every redex that is not at or below the place of
the step is listed as before, and of the nodes that are not, only the parent of the place can be
listed anew. -/
theorem contractAt_disturbs_nothing (t u : Term) (p : Path) (kind : RedexKind)
    (hlisted : (p, kind) ∈ t.redexes) (hstep : t.contractAt p = .ok u) :
    (∀ q, p.Beside q → u.get? q = t.get? q) ∧
      (∀ q kind', ¬ p <+: q → (q, kind') ∈ t.redexes → (q, kind') ∈ u.redexes) ∧
      ∀ q kind', ¬ p <+: q → (q, kind') ∈ u.redexes →
        (q, kind') ∈ t.redexes ∨ ∃ i, p = q ++ [i] := by
  obtain ⟨redex, v, hget, hkind, -, rfl⟩ := exists_contract_of_listed hlisted hstep
  have hredex : redex.redexKind? ≠ none := by
    rw [hkind]
    exact Option.some_ne_none kind
  refine ⟨fun q hq => get?_replaceAt_of_beside hq, ?_, ?_⟩
  · intro q kind' hq ht
    rcases Path.beside_or_above hq with hbeside | ⟨i, r, rfl⟩
    · exact (mem_redexes_replaceAt_of_beside hbeside).mpr ht
    · exact (mem_redexes_replaceAt_above hget hredex).1 ht
  · intro q kind' hq hu
    rcases Path.beside_or_above hq with hbeside | ⟨i, r, rfl⟩
    · exact .inl ((mem_redexes_replaceAt_of_beside hbeside).mp hu)
    · rcases (mem_redexes_replaceAt_above hget hredex).2 hu with ht | rfl
      · exact .inl ht
      · exact .inr ⟨i, rfl⟩

/-- The term `-(2 * 3) + (\x -> x) (1 + 2)`. -/
def negatedProduct : Term :=
  arith .add (neg (arith .mul (lit 2) (lit 3)))
    (app (lam "x" (var "x" (some 0)) (some 0)) (arith .add (lit 1) (lit 2)))

/-- The term `-6 + (\x -> x) (1 + 2)`. -/
def negatedSix : Term :=
  arith .add (neg (lit 6))
    (app (lam "x" (var "x" (some 0)) (some 0)) (arith .add (lit 1) (lit 2)))

/-- The negation is the parent of the product, and becomes a redex with it. -/
theorem contractAt_disturbs_nothing_product :
    ([0, 0], .arithmetic) ∈ negatedProduct.redexes ∧
      negatedProduct.contractAt [0, 0] = .ok negatedSix ∧
      negatedSix.get? [1] = negatedProduct.get? [1] ∧ ([1], .beta) ∈ negatedSix.redexes ∧
      ([1, 1], .arithmetic) ∈ negatedSix.redexes ∧ ([0], .arithmetic) ∈ negatedSix.redexes ∧
      ([0], .arithmetic) ∉ negatedProduct.redexes ∧
      ∀ q kind, ¬ [0, 0] <+: q → (q, kind) ∈ negatedSix.redexes →
        (q, kind) ∈ negatedProduct.redexes ∨ ∃ i, [0, 0] = q ++ [i] := by
  have hlisted : ([0, 0], .arithmetic) ∈ negatedProduct.redexes := by decide
  have hstep : negatedProduct.contractAt [0, 0] = .ok negatedSix := by decide
  obtain ⟨hframe, hkeep, hnew⟩ :=
    contractAt_disturbs_nothing negatedProduct negatedSix [0, 0] .arithmetic hlisted hstep
  refine ⟨hlisted, hstep, hframe [1] (by decide), ?_, ?_, by decide, by decide, hnew⟩
  · exact hkeep [1] .beta (by decide) (by decide)
  · exact hkeep [1, 1] .arithmetic (by decide) (by decide)

/-- Steps in different branches commute: each can still be taken after the other, and both orders
lead to the same term, names and numbers included. -/
theorem contractAt_comm (t u v : Term) (p q : Path) (kindp kindq : RedexKind)
    (hp : (p, kindp) ∈ t.redexes) (hq : (q, kindq) ∈ t.redexes) (hbeside : p.Beside q)
    (hu : t.contractAt p = .ok u) (hv : t.contractAt q = .ok v) :
    ∃ w, (q, kindq) ∈ u.redexes ∧ u.contractAt q = .ok w ∧
      (p, kindp) ∈ v.redexes ∧ v.contractAt p = .ok w := by
  obtain ⟨c, a, hc, -, hca, rfl⟩ := exists_contract_of_listed hp hu
  obtain ⟨d, b, hd, -, hdb, rfl⟩ := exists_contract_of_listed hq hv
  have hd' : (t.replaceAt p a).get? q = some d := by rw [get?_replaceAt_of_beside hbeside, hd]
  have hc' : (t.replaceAt q b).get? p = some c := by rw [get?_replaceAt_of_beside hbeside.symm, hc]
  refine ⟨(t.replaceAt p a).replaceAt q b, ?_, ?_, ?_, ?_⟩
  · exact (mem_redexes_replaceAt_of_beside hbeside).mpr hq
  · exact contractAt_eq_ok_iff.mpr (.inr ⟨d, b, hd', hdb, rfl⟩)
  · exact (mem_redexes_replaceAt_of_beside hbeside.symm).mpr hp
  · exact contractAt_eq_ok_iff.mpr (.inr ⟨c, a, hc', hca, replaceAt_comm hbeside hc hd⟩)

/-- The term `\y -> l + r`. -/
def underY (l r : Term) : Term :=
  lam "y" (arith .add l r) (some 0)

/-- The term `(\x -> \y -> x) y` with binders numbered from `n` on, for a `y` numbered zero. -/
def constantOfY (n : Int) : Term :=
  app (lam "x" (lam "y" (var "x" (some n)) (some (n + 1))) (some n)) (var "y" (some 0))

/-- The term `\y' -> y` that this becomes. -/
def renamedConstant (n : Int) : Term :=
  lam "y'" (var "y" (some 0)) (some (n + 1))

/-- Both steps rename a binder to the same fresh name. -/
theorem contractAt_comm_renaming :
    ([0, 0], .beta) ∈ (underY (constantOfY 1) (constantOfY 3)).redexes ∧
      ([0, 1], .beta) ∈ (underY (constantOfY 1) (constantOfY 3)).redexes ∧
      Path.Beside [0, 0] [0, 1] ∧
      (underY (constantOfY 1) (constantOfY 3)).contractAt [0, 0] =
        .ok (underY (renamedConstant 1) (constantOfY 3)) ∧
      (underY (constantOfY 1) (constantOfY 3)).contractAt [0, 1] =
        .ok (underY (constantOfY 1) (renamedConstant 3)) ∧
      ∃ w, ([0, 1], .beta) ∈ (underY (renamedConstant 1) (constantOfY 3)).redexes ∧
        (underY (renamedConstant 1) (constantOfY 3)).contractAt [0, 1] = .ok w ∧
        ([0, 0], .beta) ∈ (underY (constantOfY 1) (renamedConstant 3)).redexes ∧
        (underY (constantOfY 1) (renamedConstant 3)).contractAt [0, 0] = .ok w := by
  have hp : ([0, 0], .beta) ∈ (underY (constantOfY 1) (constantOfY 3)).redexes := by decide
  have hq : ([0, 1], .beta) ∈ (underY (constantOfY 1) (constantOfY 3)).redexes := by decide
  have hbeside : Path.Beside [0, 0] [0, 1] := by decide
  have hu : (underY (constantOfY 1) (constantOfY 3)).contractAt [0, 0] =
      .ok (underY (renamedConstant 1) (constantOfY 3)) := by decide +kernel
  have hv : (underY (constantOfY 1) (constantOfY 3)).contractAt [0, 1] =
      .ok (underY (constantOfY 1) (renamedConstant 3)) := by decide +kernel
  exact ⟨hp, hq, hbeside, hu, hv, contractAt_comm _ _ _ _ _ _ _ hp hq hbeside hu hv⟩

end Term

end Contractum
