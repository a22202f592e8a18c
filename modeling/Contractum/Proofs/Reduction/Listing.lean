import Contractum.Term.Redex

/-!
# What the listing lists

A walk holds a path with a node exactly when the path leads to the node, and a listing holds a
path with a kind exactly when the path leads to a redex of that kind. The paths of a walk increase
in the lexicographic order, and so do those of a listing, which leaves entries out and moves none.
-/

namespace Contractum.Term

variable {t c : Term} {path : Path} {kind : RedexKind}

theorem cons_mem_map_seenFrom {i j : Nat} {entries : List (Path × Term)} :
    (j :: path, c) ∈ entries.map (seenFrom i) ↔ i = j ∧ (path, c) ∈ entries := by
  simp only [List.mem_map, seenFrom, Prod.mk.injEq, List.cons.injEq, Prod.exists]
  constructor
  · rintro ⟨_, _, hentry, ⟨rfl, rfl⟩, rfl⟩
    exact ⟨rfl, hentry⟩
  · rintro ⟨rfl, hentry⟩
    exact ⟨path, c, hentry, ⟨rfl, rfl⟩, rfl⟩

theorem nil_mem_walk_iff : ([], c) ∈ t.walk ↔ c = t := by
  cases t <;> simp [walk, seenFrom]

theorem cons_mem_walk_iff {i : Nat} :
    (i :: path, c) ∈ t.walk ↔ ∃ d, t.child? i = some d ∧ (path, c) ∈ d.walk := by
  cases t <;> rcases i with _ | _ | i <;> simp [walk, child?, cons_mem_map_seenFrom]

/-- A walk holds every node at its path and nothing else. -/
theorem mem_walk_iff : (path, c) ∈ t.walk ↔ t.get? path = some c := by
  induction path generalizing t with
  | nil => rw [nil_mem_walk_iff, get?_nil, Option.some_inj, eq_comm]
  | cons i path ih => simp only [cons_mem_walk_iff, ih, get?, Option.bind_eq_some_iff]

/-- A listing holds every redex with its path and its kind and nothing else. -/
theorem mem_listing_iff :
    (path, c, kind) ∈ t.listing ↔ t.get? path = some c ∧ c.redexKind? = some kind := by
  simp only [listing, List.mem_filterMap, Prod.exists, mem_walk_iff, Option.map_eq_some_iff,
    Prod.mk.injEq]
  constructor
  · rintro ⟨_, redex, hget, _, hkind, rfl, rfl, rfl⟩
    exact ⟨hget, hkind⟩
  · rintro ⟨hget, hkind⟩
    exact ⟨path, c, hget, kind, hkind, rfl, rfl, rfl⟩

/-- The redexes that are picked by number are the entries of the listing. -/
theorem redexes_eq_map_listing (t : Term) :
    t.redexes = t.listing.map fun entry => (entry.1, entry.2.2) := by
  rw [redexes, listing, List.map_filterMap]
  simp only [Option.map_map]
  rfl

theorem mem_redexes_iff :
    (path, kind) ∈ t.redexes ↔
      ∃ redex, t.get? path = some redex ∧ redex.redexKind? = some kind := by
  simp only [redexes_eq_map_listing, List.mem_map, Prod.exists, mem_listing_iff, Prod.mk.injEq]
  constructor
  · rintro ⟨_, redex, _, ⟨hget, hkind⟩, rfl, rfl⟩
    exact ⟨redex, hget, hkind⟩
  · rintro ⟨redex, hget, hkind⟩
    exact ⟨path, redex, kind, ⟨hget, hkind⟩, rfl, rfl⟩

/-- Entries whose paths increase strictly in the lexicographic order, in which a path comes before
those that go on from it. -/
def InOrder {α : Type} (entries : List (Path × α)) : Prop :=
  entries.Pairwise fun entry later => List.Lex (· < ·) entry.1 later.1

variable {entries left right : List (Path × Term)}

theorem InOrder.map_seenFrom (h : InOrder entries) (i : Nat) :
    InOrder (entries.map (seenFrom i)) := by
  apply List.pairwise_map.mpr
  exact h.imp .cons

/-- The root comes before all other nodes. -/
theorem InOrder.root (h : InOrder entries) (hbelow : ∀ entry ∈ entries, entry.1 ≠ []) :
    InOrder (([], t) :: entries) := by
  apply List.Pairwise.cons _ h
  intro entry hentry
  obtain ⟨i, path, hpath⟩ := List.exists_cons_of_ne_nil (hbelow entry hentry)
  rw [hpath]
  exact .nil

theorem ne_nil_of_mem_seenFrom {i : Nat} : ∀ entry ∈ entries.map (seenFrom i), entry.1 ≠ [] := by
  rintro _ hentry
  obtain ⟨entry, -, rfl⟩ := List.mem_map.mp hentry
  exact List.cons_ne_nil i entry.1

/-- All nodes below the first child come before those below the second. -/
theorem InOrder.beside (hleft : InOrder left) (hright : InOrder right) :
    InOrder (left.map (seenFrom 0) ++ right.map (seenFrom 1)) := by
  apply List.pairwise_append.mpr
  refine ⟨hleft.map_seenFrom 0, hright.map_seenFrom 1, ?_⟩
  intro _ hfirst _ hsecond
  obtain ⟨first, -, rfl⟩ := List.mem_map.mp hfirst
  obtain ⟨second, -, rfl⟩ := List.mem_map.mp hsecond
  exact .rel Nat.zero_lt_one

theorem InOrder.node_one (h : InOrder entries) (i : Nat) :
    InOrder (([], t) :: entries.map (seenFrom i)) :=
  (h.map_seenFrom i).root ne_nil_of_mem_seenFrom

theorem InOrder.node_two (hleft : InOrder left) (hright : InOrder right) :
    InOrder (([], t) :: (left.map (seenFrom 0) ++ right.map (seenFrom 1))) := by
  apply (hleft.beside hright).root
  intro entry hentry
  rcases List.mem_append.mp hentry with hentry | hentry
  · exact ne_nil_of_mem_seenFrom entry hentry
  · exact ne_nil_of_mem_seenFrom entry hentry

theorem inOrder_walk (t : Term) : InOrder t.walk := by
  induction t with
  | var | constr | lit => exact List.pairwise_singleton _ _
  | lam x body id ih => exact ih.node_one 0
  | neg operand ih => exact ih.node_one 0
  | letIn x value body id ihv ihb => exact ihv.node_two ihb
  | app fn arg ihf iha => exact ihf.node_two iha
  | arith op l r ihl ihr => exact ihl.node_two ihr

theorem InOrder.nodup {α : Type} {entries : List (Path × α)} (h : InOrder entries) :
    (entries.map (·.1)).Nodup := by
  apply List.pairwise_map.mpr
  apply h.imp
  intro entry later hlex hsame
  rw [hsame] at hlex
  exact List.lt_irrefl later.1 hlex

/-- Leaving entries out keeps the order of the others. -/
theorem inOrder_listing (t : Term) : InOrder t.listing := by
  apply List.Pairwise.filterMap _ _ (inOrder_walk t)
  intro entry later hlex
  simp only [Option.map_eq_some_iff]
  rintro _ ⟨kind, -, rfl⟩ _ ⟨kind', -, rfl⟩
  exact hlex

/-- The listing is exact: it holds the nodes that are redexes, each with its path and kind, and
nothing else; no path is listed twice; and the paths increase in the lexicographic order, each
before those that go on from it. -/
theorem listing_exact (t : Term) :
    (∀ path node kind, (path, node, kind) ∈ t.listing ↔
        t.get? path = some node ∧ node.redexKind? = some kind) ∧
      (t.listing.map (·.1)).Nodup ∧
      t.listing.Pairwise (fun entry later => List.Lex (· < ·) entry.1 later.1) ∧
      t.redexes = t.listing.map fun entry => (entry.1, entry.2.2) :=
  ⟨fun _ _ _ => mem_listing_iff, (inOrder_listing t).nodup, inOrder_listing t,
    redexes_eq_map_listing t⟩

/-- The listing of `(\x -> 1 + 2) (3 * 4)`: the whole term, the body and the argument. -/
example :
    let body : Term := .arith .add (.lit 1) (.lit 2)
    let operand : Term := .arith .mul (.lit 3) (.lit 4)
    let whole : Term := .app (.lam "x" body none) operand
    whole.listing =
      [([], whole, .beta), ([0, 0], body, .arithmetic), ([1], operand, .arithmetic)] := by
  decide +kernel

end Contractum.Term
