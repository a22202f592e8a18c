import Contractum.Term.Name

/-!
# Fresh names

The candidates for a fresh name are the old name with one prime, with two, and so on. They
differ pairwise, so the search finds one that is not taken before it has passed as many
candidates as there are taken names. What it finds is new to the scope of the binder and
not free in the replacement.
-/

namespace Contractum.Term

/-- A name followed by `k` primes. -/
@[simp] def primed (name : String) : Nat → String
  | 0 => name
  | k + 1 => primed (name ++ prime) k

@[simp] theorem length_primed (name : String) (k : Nat) :
    (primed name k).length = name.length + k := by
  induction k generalizing name with
  | zero => rfl
  | succ k ih =>
      have hprime : prime.length = 1 := rfl
      rw [primed, ih, String.length_append, hprime]
      omega

theorem primed_injective (name : String) {j k : Nat} (h : primed name j = primed name k) :
    j = k := by
  have hlength := congrArg String.length h
  simp only [length_primed] at hlength
  omega

variable {taken : List String} {name : String}

/-- The search passes taken candidates only, and ends at one that is not taken unless it
ends at its bound. -/
theorem firstUntaken_spec (taken : List String) (bound : Nat) (name : String) :
    ∃ k ≤ bound, firstUntaken taken bound name = primed name k ∧
      (∀ j < k, primed name j ∈ taken) ∧ (k < bound → primed name k ∉ taken) := by
  induction bound generalizing name with
  | zero =>
      refine ⟨0, Nat.le_refl 0, rfl, ?_, ?_⟩
      · intro j hj
        exact absurd hj (Nat.not_lt_zero j)
      · intro h
        exact absurd h (Nat.lt_irrefl 0)
  | succ bound ih =>
      by_cases hname : name ∈ taken
      · obtain ⟨k, hk, hfound, hpassed, hfresh⟩ := ih (name ++ prime)
        refine ⟨k + 1, Nat.succ_le_succ hk, ?_, ?_, ?_⟩
        · rw [firstUntaken, if_pos hname, hfound, primed]
        · intro j hj
          cases j with
          | zero => exact hname
          | succ j => exact hpassed j (Nat.lt_of_succ_lt_succ hj)
        · intro h
          exact hfresh (Nat.lt_of_succ_lt_succ h)
      · refine ⟨0, Nat.zero_le _, ?_, ?_, ?_⟩
        · rw [firstUntaken, if_neg hname, primed]
        · intro j hj
          exact absurd hj (Nat.not_lt_zero j)
        · intro _
          exact hname

/-- More candidates than there are taken names cannot all be taken. -/
theorem le_length_of_primed_mem {k : Nat} (h : ∀ j < k, primed name j ∈ taken) :
    k ≤ taken.length := by
  have hnodup : ((List.range k).map (primed name)).Nodup := by
    apply List.Pairwise.map _ _ List.nodup_range
    intro i j hij hsame
    exact hij (primed_injective name hsame)
  have hsubset : (List.range k).map (primed name) ⊆ taken := by
    intro y hy
    obtain ⟨j, hj, rfl⟩ := List.mem_map.mp hy
    exact h j (List.mem_range.mp hj)
  simpa using hnodup.length_le_of_subset hsubset

/-- The bound of the search never ends it. -/
theorem firstUntaken_length_spec (taken : List String) (name : String) :
    ∃ k ≤ taken.length, firstUntaken taken taken.length name = primed name k ∧
      primed name k ∉ taken ∧ ∀ j < k, primed name j ∈ taken := by
  obtain ⟨k, hk, hfound, hpassed, hfresh⟩ := firstUntaken_spec taken taken.length name
  refine ⟨k, hk, hfound, ?_, hpassed⟩
  intro hmem
  rcases Nat.lt_or_eq_of_le hk with hlt | rfl
  · exact hfresh hlt hmem
  · have hall : ∀ j < taken.length + 1, primed name j ∈ taken := by
      intro j hj
      rcases Nat.lt_succ_iff_lt_or_eq.mp hj with hlt | rfl
      · exact hpassed j hlt
      · exact hmem
    have hmore := le_length_of_primed_mem hall
    omega

variable {scope replacement : Term}

/-- A fresh name is the old one with at least one prime, the first that is not taken. -/
theorem freshName_spec (name : String) (scope replacement : Term) :
    ∃ k ≤ (scope.names ++ replacement.freeNames).length,
      freshName name scope replacement = primed name (k + 1) ∧
      primed name (k + 1) ∉ scope.names ++ replacement.freeNames ∧
      ∀ j < k, primed name (j + 1) ∈ scope.names ++ replacement.freeNames :=
  firstUntaken_length_spec (scope.names ++ replacement.freeNames) (name ++ prime)

theorem freshName_not_mem_names (name : String) (scope replacement : Term) :
    freshName name scope replacement ∉ scope.names := by
  obtain ⟨k, -, hfound, hfresh, -⟩ := freshName_spec name scope replacement
  rw [hfound]
  exact fun h => hfresh (List.mem_append_left _ h)

theorem not_isFree_freshName (name : String) (scope replacement : Term) :
    ¬ replacement.isFree (freshName name scope replacement) = true := by
  obtain ⟨k, -, hfound, hfresh, -⟩ := freshName_spec name scope replacement
  rw [hfound, isFree_iff_mem_freeNames]
  exact fun h => hfresh (List.mem_append_right _ h)

end Contractum.Term
