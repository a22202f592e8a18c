import Mathlib.Data.Finset.Card
import Mathlib.Order.Bounds.Defs
import Contractum.Proofs.Names.Fresh
import Contractum.Proofs.Scoping.Freedom

/-!
# The search for a fresh name

The search passes from one candidate to the next as long as a variable or a binder of the scope
has that name, or it is free in the replacement. Nothing in it counts the candidates. It ends all
the same, since only so many names are taken, and it ends at the candidate with the fewest primes.
-/

namespace Contractum.Term

/-- The name of a variable or of a binder. -/
def name? : Term → Option String
  | var x _ | lam x _ _ | letIn x _ _ _ => some x
  | constr _ | lit _ | app _ _ | arith _ _ _ | neg _ => none

/-- Some variable or some binder of the term has this name. -/
def Mentions (t : Term) (x : String) : Prop :=
  ∃ path node, t.get? path = some node ∧ node.name? = some x

/-- A name that a binder with this scope must not get: it is in use in the scope, or free in the
replacement. -/
def Taken (scope replacement : Term) (x : String) : Prop :=
  scope.Mentions x ∨ ∃ path, replacement.UnboundAt x path

/-- The rounds of the search from a candidate on, without a bound. -/
inductive Search (taken : String → Prop) : Nat → String → String → Prop
  | ends {x : String} (new : ¬ taken x) : Search taken 0 x x
  | goesOn {rounds : Nat} {x y : String} (old : taken x)
      (rest : Search taken rounds (x ++ prime) y) : Search taken (rounds + 1) x y

variable {t scope replacement : Term} {x y z : String} {taken : String → Prop} {m n : Nat}

/-- A name is in use at a node itself or in one of its children. -/
theorem mentions_iff : t.Mentions x ↔ t.name? = some x ∨ ∃ c ∈ t.children, c.Mentions x := by
  constructor
  · rintro ⟨path, node, hget, hname⟩
    cases path with
    | nil =>
        rw [get?_nil, Option.some_inj] at hget
        exact .inl (hget ▸ hname)
    | cons i path =>
        obtain ⟨c, hc, hget⟩ := Option.bind_eq_some_iff.mp hget
        exact .inr ⟨c, (child?_eq_some_iff.mp hc).mem_children, path, node, hget, hname⟩
  · rintro (hname | ⟨c, hc, path, node, hget, hname⟩)
    · exact ⟨[], t, get?_nil t, hname⟩
    · obtain ⟨i, hi⟩ := List.mem_iff_getElem?.mp hc
      exact ⟨i :: path, node, by rw [get?, child?, hi, Option.bind_some, hget], hname⟩

theorem mem_names_iff : x ∈ t.names ↔ t.Mentions x := by
  induction t using children_induction with
  | step t ih =>
      have hchildren : (∃ c ∈ t.children, c.Mentions x) ↔ ∃ c ∈ t.children, x ∈ c.names :=
        exists_congr fun c => and_congr_right fun hc => (ih c hc).symm
      rw [mentions_iff, hchildren]
      cases t <;> simp [name?, eq_comm]

theorem mem_append_iff_taken :
    x ∈ scope.names ++ replacement.freeNames ↔ Taken scope replacement x := by
  rw [List.mem_append, mem_names_iff, ← isFree_iff_mem_freeNames, isFree_iff_exists_unboundAt,
    Taken]

/-- The search does the same in every run. -/
theorem Search.unique (h : Search taken m x y) (h' : Search taken n x z) : m = n ∧ y = z := by
  induction h generalizing n with
  | ends new =>
      cases h' with
      | ends => exact ⟨rfl, rfl⟩
      | goesOn old => exact absurd old new
  | goesOn old _ ih =>
      cases h' with
      | ends new => exact absurd old new
      | goesOn _ rest =>
          obtain ⟨rfl, rfl⟩ := ih rest
          exact ⟨rfl, rfl⟩

/-- The search comes to a candidate that is not taken when all before it are. -/
theorem search_primed (hpassed : ∀ j < n, taken (primed x j)) (hnew : ¬ taken (primed x n)) :
    Search taken n x (primed x n) := by
  induction n generalizing x with
  | zero => exact .ends hnew
  | succ n ih =>
      refine .goesOn (hpassed 0 (Nat.succ_pos n)) (ih ?_ hnew)
      intro j hj
      exact hpassed (j + 1) (Nat.succ_lt_succ hj)

/-- The names that are taken, each counted once. -/
def takenNames (scope replacement : Term) : Finset String :=
  (scope.names ++ replacement.freeNames).toFinset

theorem mem_takenNames_iff : x ∈ takenNames scope replacement ↔ Taken scope replacement x := by
  rw [takenNames, List.mem_toFinset, mem_append_iff_taken]

/-- The candidates that a search passes by are different names, and all of them are taken. -/
theorem le_card_takenNames (hpassed : ∀ j < n, Taken scope replacement (primed x j)) :
    n ≤ (takenNames scope replacement).card := by
  have hle : n ≤ (takenNames scope replacement).toList.length := by
    apply le_length_of_primed_mem
    intro j hj
    exact Finset.mem_toList.mpr (mem_takenNames_iff.mpr (hpassed j hj))
  rwa [Finset.length_toList] at hle

/-- A fresh name is the old one with at least one prime, and with the fewest that make it new. The
search for it ends, in a single way, and it takes no more primes than one above the number of
names that are taken. -/
theorem freshName_least (name : String) (scope replacement : Term) :
    ∃ k, IsLeast {k | 1 ≤ k ∧ ¬ Taken scope replacement (primed name k)} k ∧
      freshName name scope replacement = primed name k ∧
      (∀ rounds found, Search (Taken scope replacement) rounds (name ++ prime) found ↔
        rounds + 1 = k ∧ found = freshName name scope replacement) ∧
      ∃ names : Finset String, (∀ x, x ∈ names ↔ Taken scope replacement x) ∧
        k ≤ names.card + 1 := by
  obtain ⟨k, -, hfound, hnew, hpassed⟩ := freshName_spec name scope replacement
  simp only [mem_append_iff_taken] at hnew hpassed
  have hsearch : Search (Taken scope replacement) k (name ++ prime) (primed name (k + 1)) :=
    search_primed hpassed hnew
  refine ⟨k + 1, ⟨⟨Nat.succ_pos k, hnew⟩, ?_⟩, hfound, ?_, takenNames scope replacement,
    fun x => mem_takenNames_iff, Nat.succ_le_succ (le_card_takenNames hpassed)⟩
  · rintro j ⟨hpos, hj⟩
    by_contra hlt
    obtain ⟨j, rfl⟩ := Nat.exists_eq_succ_of_ne_zero (Nat.ne_zero_of_lt hpos)
    exact hj (hpassed j (by omega))
  · intro rounds found
    rw [hfound, Nat.succ_inj]
    constructor
    · exact fun h => h.unique hsearch
    · rintro ⟨rfl, rfl⟩
      exact hsearch

/-- The first candidate is in use in the scope, and the second one is free in the replacement. -/
example :
    freshName "y" (lam "y'" (var "y" none) none) (app (var "y" none) (var "y''" none)) =
      "y'''" := by
  decide +kernel

end Contractum.Term
