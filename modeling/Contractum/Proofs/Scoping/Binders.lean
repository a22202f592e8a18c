import Contractum.Proofs.Grammar.Acceptance
import Contractum.Proofs.Scoping.Resolved

/-!
# Binders and their numbers

A binder binds its name on every path that goes on into its scope, and the search from a place
upwards finds the innermost such binder. The parser numbers the binders of a text in the order of
a walk, from zero on and without gaps, and gives each variable the number of the binder that the
search finds for it.
-/

namespace Contractum.Term

/-- The children that lie in the scope of a name which the node binds: the body of a function and
the body of a `let`. -/
inductive Binds : Term → Nat → String → Option Int → Prop
  | lam (x : String) (body : Term) (id : Option Int) : Binds (lam x body id) 0 x id
  | letIn (x : String) (value body : Term) (id : Option Int) :
      Binds (letIn x value body id) 1 x id

/-- A binder of `x` stands at the path `above`, and `path` goes on from there into its scope. -/
def BinderOn (t : Term) (x : String) (path above : Path) (id : Option Int) : Prop :=
  ∃ i rest node, path = above ++ i :: rest ∧ t.get? above = some node ∧ Binds node i x id

/-- The innermost binder of `x` for a path: all others stand above it. -/
structure InnermostBinder (t : Term) (x : String) (path above : Path) (id : Option Int) : Prop where
  binds : t.BinderOn x path above id
  innermost : ∀ other id', t.BinderOn x path other id' → other <+: above

/-- The numbers of the binders in the order of a walk. -/
def binderIds (t : Term) : List (Option Int) :=
  t.walk.filterMap fun entry => entry.2.binding?.map (·.2)

variable {t c : Term} {x : String} {id : Option Int} {path above : Path} {i n : Nat} {scope : Scope}

theorem bindsIn_iff : t.bindsIn x i = true ↔ ∃ id, Binds t i x id := by
  constructor
  · intro h
    cases t with
    | lam y body id =>
        obtain ⟨rfl, rfl⟩ : y = x ∧ i = 0 := by simpa [bindsIn] using h
        exact ⟨id, .lam ..⟩
    | letIn y value body id =>
        obtain ⟨rfl, rfl⟩ : y = x ∧ i = 1 := by simpa [bindsIn] using h
        exact ⟨id, .letIn ..⟩
    | var | constr | lit | app | arith | neg => cases h
  · rintro ⟨id, hbinds⟩
    cases hbinds <;> simp [bindsIn]

theorem not_binderOn_nil : ¬ t.BinderOn x [] above id := by
  rintro ⟨i, rest, node, hpath, -, -⟩
  cases above <;> cases hpath

/-- The binders on a path are the node itself, if the path goes into its scope, and those of the
child that the path goes into. -/
theorem binderOn_cons_iff (hc : t.child? i = some c) :
    t.BinderOn x (i :: path) above id ↔
      above = [] ∧ Binds t i x id ∨ ∃ inner, above = i :: inner ∧ c.BinderOn x path inner id := by
  constructor
  · rintro ⟨j, rest, node, hpath, hnode, hbinds⟩
    cases above with
    | nil =>
        cases hpath
        rw [get?_nil, Option.some_inj] at hnode
        exact .inl ⟨rfl, hnode ▸ hbinds⟩
    | cons k inner =>
        cases hpath
        rw [get?, hc, Option.bind_some] at hnode
        exact .inr ⟨inner, rfl, j, rest, node, rfl, hnode, hbinds⟩
  · rintro (⟨rfl, hbinds⟩ | ⟨inner, rfl, j, rest, node, rfl, hnode, hbinds⟩)
    · exact ⟨i, path, t, rfl, get?_nil t, hbinds⟩
    · exact ⟨j, rest, node, rfl, by rw [get?, hc, Option.bind_some, hnode], hbinds⟩

/-- The search finds the innermost binder, and finds none only if there is none. -/
theorem binderAbove?_spec {leaf : Term} (x : String) (hget : t.get? path = some leaf) :
    match t.binderAbove? x path with
    | some above => ∃ id, t.InnermostBinder x path above id
    | none => ∀ above id, ¬ t.BinderOn x path above id := by
  induction path generalizing t with
  | nil =>
      intro above id
      exact not_binderOn_nil
  | cons i path ih =>
      obtain ⟨c, hc, hget⟩ := Option.bind_eq_some_iff.mp hget
      have hinner := ih hget
      rw [binderAbove?, hc, Option.bind_some]
      cases hfound : c.binderAbove? x path with
      | some above =>
          rw [hfound] at hinner
          obtain ⟨id, hbinds, hinnermost⟩ := hinner
          refine ⟨id, (binderOn_cons_iff hc).mpr (.inr ⟨above, rfl, hbinds⟩), ?_⟩
          intro other id' hother
          rcases (binderOn_cons_iff hc).mp hother with ⟨rfl, -⟩ | ⟨inner, rfl, hinner⟩
          · exact List.nil_prefix
          · exact List.cons_prefix_cons.mpr ⟨rfl, hinnermost inner id' hinner⟩
      | none =>
          rw [hfound] at hinner
          cases hbinds : t.bindsIn x i with
          | true =>
              obtain ⟨id, hbinds⟩ := bindsIn_iff.mp hbinds
              refine ⟨id, (binderOn_cons_iff hc).mpr (.inl ⟨rfl, hbinds⟩), ?_⟩
              intro other id' hother
              rcases (binderOn_cons_iff hc).mp hother with ⟨rfl, -⟩ | ⟨inner, rfl, hbelow⟩
              · exact List.nil_prefix
              · exact absurd hbelow (hinner inner id')
          | false =>
              intro other id' hother
              rcases (binderOn_cons_iff hc).mp hother with ⟨rfl, hself⟩ | ⟨inner, rfl, hbelow⟩
              · rw [bindsIn_iff.mpr ⟨id', hself⟩] at hbinds
                cases hbinds
              · exact hinner inner id' hbelow

theorem Binds.binding? (h : Binds t i x id) : t.binding? = some (x, id) := by
  cases h <;> rfl

/-- A variable of a resolved closed term has a binder, and its number is that of the innermost
one. -/
theorem Resolved.innermostBinder (h : Resolved [] t) (hget : t.get? path = some (var x id)) :
    ∃ (k : Int) (above : Path), id = some k ∧ t.binderOf? path = some above ∧
      t.InnermostBinder x path above id := by
  obtain ⟨k, above, node, rfl, hfound, hnode, hbinding⟩ := h.binderOf? hget
  refine ⟨k, above, rfl, hfound, ?_⟩
  have hspec := binderAbove?_spec x hget
  rw [Term.binderOf?, hget] at hfound
  simp only at hfound
  rw [hfound] at hspec
  obtain ⟨id, hinnermost⟩ := hspec
  obtain ⟨i, rest, node', -, hnode', hbinds⟩ := hinnermost.binds
  obtain rfl : node = node' := Option.some_inj.mp (hnode.symm.trans hnode')
  rw [hbinds.binding?, Option.some_inj, Prod.mk.injEq] at hbinding
  exact hbinding.2 ▸ hinnermost

theorem filterMap_binding?_seenFrom (i : Nat) (t : Term) :
    (t.walk.map (seenFrom i)).filterMap (fun entry => entry.2.binding?.map (·.2)) =
      t.binderIds := by
  rw [List.filterMap_map]
  rfl

section BinderIds

variable (body fn arg left right operand : Term)

theorem binderIds_lam : (lam x body id).binderIds = id :: body.binderIds := by
  rw [binderIds, walk, List.filterMap_cons, filterMap_binding?_seenFrom]
  rfl

theorem binderIds_letIn (value : Term) :
    (letIn x value body id).binderIds = id :: (value.binderIds ++ body.binderIds) := by
  rw [binderIds, walk, List.filterMap_cons, List.filterMap_append, filterMap_binding?_seenFrom,
    filterMap_binding?_seenFrom]
  rfl

theorem binderIds_app : (app fn arg).binderIds = fn.binderIds ++ arg.binderIds := by
  rw [binderIds, walk, List.filterMap_cons, List.filterMap_append, filterMap_binding?_seenFrom,
    filterMap_binding?_seenFrom]
  rfl

theorem binderIds_arith (op : Op) :
    (arith op left right).binderIds = left.binderIds ++ right.binderIds := by
  rw [binderIds, walk, List.filterMap_cons, List.filterMap_append, filterMap_binding?_seenFrom,
    filterMap_binding?_seenFrom]
  rfl

theorem binderIds_neg : (neg operand).binderIds = operand.binderIds := by
  rw [binderIds, walk, List.filterMap_cons, filterMap_binding?_seenFrom]
  rfl

end BinderIds

/-- The numbers from `n` on, as many as are asked for. -/
def idsFrom (n count : Nat) : List (Option Int) :=
  (List.range' n count).map fun k : Nat => some (k : Int)

theorem idsFrom_append (n k m : Nat) : idsFrom n k ++ idsFrom (n + k) m = idsFrom n (k + m) := by
  rw [idsFrom, idsFrom, ← List.map_append, List.range'_append_1]
  rfl

theorem cons_idsFrom (n k : Nat) : some (n : Int) :: idsFrom (n + 1) k = idsFrom n (k + 1) := by
  rw [idsFrom, idsFrom, List.range'_succ, List.map_cons]

/-- Numbering from `n` on takes the numbers from `n` on, in the order of a walk. -/
theorem binderIds_numberFrom (t : Term) (n : Nat) (scope : Scope) :
    (t.numberFrom n scope).binderIds = idsFrom n t.binders := by
  induction t generalizing n scope with
  | var | constr | lit => rfl
  | lam x body id ih => rw [numberFrom, binderIds_lam, ih, cons_idsFrom, binders]
  | letIn x value body id ihv ihb =>
      rw [numberFrom, binderIds_letIn, ihv, ihb, idsFrom_append, cons_idsFrom, binders]
  | app fn arg ihf iha => rw [numberFrom, binderIds_app, ihf, iha, idsFrom_append, binders]
  | arith op left right ihl ihr =>
      rw [numberFrom, binderIds_arith, ihl, ihr, idsFrom_append, binders]
  | neg operand ih => rw [numberFrom, binderIds_neg, ih, binders]

/-- The binders of a text are numbered from zero on in the order of a walk, and every variable has
the number of the binder that is found for it, which is the innermost one of its name in whose
scope it lies. -/
theorem parse_numbers_binders (text : String) (t : Term) (h : parse text = .ok t) :
    t.binderIds = (List.range t.binders).map (fun k : Nat => some (k : Int)) ∧
      ∀ path x id, t.get? path = some (var x id) →
        ∃ (k : Int) (above : Path), id = some k ∧ t.binderOf? path = some above ∧
          t.InnermostBinder x path above id := by
  obtain ⟨items, ts, u, -, -, -, hclosed, rfl⟩ := parse_eq_ok_iff.mp h
  constructor
  · have hbinders : u.numbered.binders = u.binders := by
      rw [← binders_eraseIds, numbered, eraseIds_numberFrom, binders_eraseIds]
    rw [hbinders, numbered, binderIds_numberFrom, idsFrom, List.range_eq_range']
  · intro path x id hget
    exact (resolved_numbered hclosed).innermostBinder hget

/-- The term `\x -> let x = x in \y -> x`, whose second `x` is bound by the function and whose last
one is bound by the `let`. -/
def rebound : Term :=
  lam "x" (letIn "x" (var "x" (some 0)) (lam "y" (var "x" (some 1)) (some 2)) (some 1)) (some 0)

theorem parse_numbers_binders_rebound :
    parse "\\x -> let x = x in \\y -> x" = .ok rebound ∧
      rebound.binderIds = [some 0, some 1, some 2] ∧
      rebound.InnermostBinder "x" [0, 0] [] (some 0) ∧
      rebound.InnermostBinder "x" [0, 1, 0] [0] (some 1) := by
  have hparse : parse "\\x -> let x = x in \\y -> x" = .ok rebound := by decide +kernel
  obtain ⟨hids, hvars⟩ := parse_numbers_binders _ rebound hparse
  refine ⟨hparse, hids, ?_, ?_⟩
  · obtain ⟨k, above, -, hfound, hbinder⟩ := hvars [0, 0] "x" (some 0) rfl
    obtain rfl : [] = above := Option.some_inj.mp hfound
    exact hbinder
  · obtain ⟨k, above, -, hfound, hbinder⟩ := hvars [0, 1, 0] "x" (some 1) rfl
    obtain rfl : [0] = above := Option.some_inj.mp hfound
    exact hbinder

end Contractum.Term
