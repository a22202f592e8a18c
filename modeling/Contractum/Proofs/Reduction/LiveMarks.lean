import Contractum.Live
import Mathlib.Data.List.Nodup

/-!
# Marks of live terms

The marks of a live term are laid out like the term, differ from each other, and have all been
used. Those that a step gives to a term in the place of another are so again: each is one that the
other term had at this position, or an unused one.
-/

namespace Contractum

namespace Marks

/-- The marks of all nodes, parents before children. -/
def all : Marks → List Nat
  | leaf mark => [mark]
  | one mark child => mark :: child.all
  | two mark left right => mark :: (left.all ++ right.all)

/-- The marks of all nodes, if there are any. -/
def allOf : Option Marks → List Nat
  | some marks => marks.all
  | none => []

/-- The marks of a child. -/
def child? (marks : Marks) (i : Nat) : Option Marks :=
  if i = 0 then marks.first? else marks.second?

/-- Puts other marks in the place of those of a child. -/
def setChild : Marks → Nat → Marks → Marks
  | one mark _, 0, child => one mark child
  | two mark _ right, 0, child => two mark child right
  | two mark left _, _ + 1, child => two mark left child
  | marks, _, _ => marks

/-- The marks are laid out like the term. -/
inductive Fits : Term → Marks → Prop
  | var (name : String) (id : Option Int) (mark : Nat) : Fits (.var name id) (leaf mark)
  | constr (name : String) (mark : Nat) : Fits (.constr name) (leaf mark)
  | lit (value : Int) (mark : Nat) : Fits (.lit value) (leaf mark)
  | lam {body : Term} {child : Marks} (param : String) (id : Option Int) (mark : Nat)
      (fits : Fits body child) : Fits (.lam param body id) (one mark child)
  | neg {operand : Term} {child : Marks} (mark : Nat) (fits : Fits operand child) :
      Fits (.neg operand) (one mark child)
  | letIn {value body : Term} {left right : Marks} (name : String) (id : Option Int) (mark : Nat)
      (fitsLeft : Fits value left) (fitsRight : Fits body right) :
      Fits (.letIn name value body id) (two mark left right)
  | app {fn arg : Term} {left right : Marks} (mark : Nat) (fitsLeft : Fits fn left)
      (fitsRight : Fits arg right) : Fits (.app fn arg) (two mark left right)
  | arith {l r : Term} {left right : Marks} (op : Op) (mark : Nat) (fitsLeft : Fits l left)
      (fitsRight : Fits r right) : Fits (.arith op l r) (two mark left right)

variable {t c u : Term} {marks child other : Marks} {mark i supply : Nat}

theorem all_eq (marks : Marks) :
    marks.all = marks.top :: (allOf marks.first? ++ allOf marks.second?) := by
  cases marks <;> simp [all, top, allOf, first?, second?]

theorem all_setTop (mark : Nat) (marks : Marks) :
    (marks.setTop mark).all = mark :: (allOf marks.first? ++ allOf marks.second?) := by
  cases marks <;> simp [all, setTop, allOf, first?, second?]

theorem top_mem_all (marks : Marks) : marks.top ∈ marks.all := by
  rw [all_eq]
  exact List.mem_cons_self

theorem top_setTop (mark : Nat) (marks : Marks) : (marks.setTop mark).top = mark := by
  cases marks <;> rfl

theorem Fits.setTop (h : Fits t marks) (mark : Nat) : Fits t (marks.setTop mark) := by
  cases h <;> constructor <;> assumption

/-- The marks of a child stand together among those of the node, and can be exchanged there. -/
theorem exists_all_setChild (h : marks.child? i = some child) :
    ∃ front back, marks.all = front ++ child.all ++ back ∧
      ∀ other, (marks.setChild i other).all = front ++ other.all ++ back := by
  cases marks with
  | leaf mark => cases i <;> cases h
  | one mark c =>
      cases i with
      | zero =>
          cases h
          exact ⟨[mark], [], by simp [all], by simp [all, setChild]⟩
      | succ i => cases h
  | two mark left right =>
      cases i with
      | zero =>
          cases h
          exact ⟨[mark], right.all, by simp [all], by simp [all, setChild]⟩
      | succ i =>
          cases h
          exact ⟨mark :: left.all, [], by simp [all], by simp [all, setChild]⟩

theorem top_not_mem_child (hnodup : marks.all.Nodup) (h : marks.child? i = some child) :
    marks.top ∉ child.all := by
  rw [all_eq, List.nodup_cons, List.mem_append, not_or] at hnodup
  rw [child?] at h
  split at h
  · rw [h] at hnodup
    exact hnodup.1.1
  · rw [h] at hnodup
    exact hnodup.1.2

/-- A child fits its marks, and can be exchanged together with them. -/
theorem Fits.setChild (h : Fits t marks) (hc : t.child? i = some c)
    (hchild : marks.child? i = some child) :
    Fits c child ∧ ∀ {u other}, Fits u other → Fits (t.setChild i u) (marks.setChild i other) := by
  cases h <;> rcases i with _ | _ | i <;> cases hc <;> cases hchild
  all_goals
    refine ⟨by assumption, ?_⟩
    intro u other hu
    constructor <;> assumption

theorem Fits.exists_child (h : Fits t marks) (hc : t.child? i = some c) :
    ∃ child, marks.child? i = some child ∧ Fits c child := by
  cases h <;> rcases i with _ | _ | i <;> cases hc
  all_goals exact ⟨_, rfl, by assumption⟩

section Follow

variable {old : Option Marks}

/-- The marks of the old children differ from each other, if all old marks do. -/
theorem nodup_children (h : (allOf old).Nodup) :
    (allOf (old.bind first?) ++ allOf (old.bind second?)).Nodup := by
  cases old with
  | none => exact List.nodup_nil
  | some marks =>
      rw [allOf, all_eq] at h
      exact (List.nodup_cons.mp h).2

theorem subset_children (old : Option Marks) :
    allOf (old.bind first?) ++ allOf (old.bind second?) ⊆ allOf old := by
  cases old with
  | none => exact List.Subset.refl _
  | some marks =>
      intro mark hmark
      rw [allOf, all_eq]
      exact List.mem_cons_of_mem _ hmark

/-- The mark of a node is old or unused, and no mark of an old child. -/
theorem topOf_spec (h : (allOf old).Nodup) (hbelow : ∀ mark ∈ allOf old, mark < supply) :
    let result := (topOf old).run supply
    supply ≤ result.2 ∧ (result.1 ∈ allOf old ∨ supply ≤ result.1) ∧ result.1 < result.2 ∧
      result.1 ∉ allOf (old.bind first?) ++ allOf (old.bind second?) := by
  cases old with
  | none =>
      exact ⟨Nat.le_succ supply, .inr (Nat.le_refl supply), Nat.lt_succ_self supply,
        List.not_mem_nil⟩
  | some marks =>
      have htop := top_mem_all marks
      rw [allOf, all_eq] at h
      exact ⟨Nat.le_refl supply, .inl htop, hbelow _ htop, (List.nodup_cons.mp h).1⟩

/-- Marks for a term in the place of old ones: they are laid out like the term and differ from each
other, and each is one of the old ones or was unused. -/
structure Follows (old : Option Marks) (t : Term) (supply : Nat) (result : Marks × Nat) : Prop where
  fits : Fits t result.1
  le : supply ≤ result.2
  nodup : result.1.all.Nodup
  origin : ∀ mark ∈ result.1.all, mark ∈ allOf old ∨ supply ≤ mark ∧ mark < result.2

/-- The mark of a node in front of those below it, each of which is old or came after it. -/
theorem topOf_cons {rest : List Nat} {last : Nat} (h : (allOf old).Nodup)
    (hbelow : ∀ mark ∈ allOf old, mark < supply) (hle : ((topOf old).run supply).2 ≤ last)
    (hrest : rest.Nodup) (horigin : ∀ mark ∈ rest,
      mark ∈ allOf (old.bind first?) ++ allOf (old.bind second?) ∨
        ((topOf old).run supply).2 ≤ mark ∧ mark < last) :
    supply ≤ last ∧ (((topOf old).run supply).1 :: rest).Nodup ∧
      ∀ mark ∈ ((topOf old).run supply).1 :: rest,
        mark ∈ allOf old ∨ supply ≤ mark ∧ mark < last := by
  obtain ⟨hsupply, htop, hlast, hchildren⟩ := topOf_spec h hbelow
  refine ⟨Nat.le_trans hsupply hle, List.nodup_cons.mpr ⟨?_, hrest⟩, ?_⟩
  · intro hmem
    rcases horigin _ hmem with hold | ⟨hnew, -⟩
    · exact hchildren hold
    · exact absurd hlast (Nat.not_lt.mpr hnew)
  · intro mark hmark
    rcases List.mem_cons.mp hmark with rfl | hmark
    · exact htop.imp_right fun hle' => ⟨hle', Nat.lt_of_lt_of_le hlast hle⟩
    · rcases horigin mark hmark with hold | ⟨hnew, hlt⟩
      · exact .inl (subset_children old hold)
      · exact .inr ⟨Nat.le_trans hsupply hnew, hlt⟩

/-- The marks of two children, one behind the other. -/
theorem Follows.beside {left right : Marks × Nat} {l r : Term}
    (h : (allOf (old.bind first?) ++ allOf (old.bind second?)).Nodup)
    (hbelow : ∀ mark ∈ allOf (old.bind first?) ++ allOf (old.bind second?), mark < supply)
    (hleft : Follows (old.bind first?) l supply left)
    (hright : Follows (old.bind second?) r left.2 right) :
    (left.1.all ++ right.1.all).Nodup ∧ ∀ mark ∈ left.1.all ++ right.1.all,
      mark ∈ allOf (old.bind first?) ++ allOf (old.bind second?) ∨
        supply ≤ mark ∧ mark < right.2 := by
  have hle := hleft.le
  have hle' := hright.le
  constructor
  · refine List.nodup_append.mpr ⟨hleft.nodup, hright.nodup, ?_⟩
    rintro mark hmark _ hmark' rfl
    rcases hleft.origin mark hmark with hold | hnew <;>
      rcases hright.origin mark hmark' with hold' | hnew'
    · exact List.disjoint_of_nodup_append h hold hold'
    · have := hbelow mark (List.mem_append_left _ hold)
      omega
    · have := hbelow mark (List.mem_append_right _ hold')
      omega
    · omega
  · intro mark hmark
    rw [List.mem_append]
    rcases List.mem_append.mp hmark with hmark | hmark
    · rcases hleft.origin mark hmark with hold | hnew
      · exact .inl (.inl hold)
      · exact .inr (by omega)
    · rcases hright.origin mark hmark with hold | hnew
      · exact .inl (.inr hold)
      · exact .inr (by omega)

/-- The term is given such marks whatever the old ones are, if these differ from each other and have
been used. -/
def FollowsAll (t : Term) : Prop :=
  ∀ ⦃old : Option Marks⦄ ⦃supply : Nat⦄, (allOf old).Nodup →
    (∀ mark ∈ allOf old, mark < supply) → Follows old t supply ((follow old t).run supply)

theorem FollowsAll.one {l : Term} (hl : FollowsAll l) (h : (allOf old).Nodup)
    (hbelow : ∀ mark ∈ allOf old, mark < supply) :
    let top := (topOf old).run supply
    let result := (follow (old.bind first?) l).run top.2
    Fits l result.1 ∧ supply ≤ result.2 ∧ (top.1 :: result.1.all).Nodup ∧
      ∀ mark ∈ top.1 :: result.1.all, mark ∈ allOf old ∨ supply ≤ mark ∧ mark < result.2 := by
  intro top result
  obtain ⟨hsupply, -⟩ := topOf_spec h hbelow
  have hold : ∀ mark ∈ allOf (old.bind first?), mark < top.2 := fun mark hmark =>
    Nat.lt_of_lt_of_le (hbelow mark (subset_children old (List.mem_append_left _ hmark))) hsupply
  have hresult : Follows (old.bind first?) l top.2 result :=
    hl (nodup_children h).of_append_left hold
  have horigin : ∀ mark ∈ result.1.all, mark ∈ allOf (old.bind first?) ++
      allOf (old.bind second?) ∨ top.2 ≤ mark ∧ mark < result.2 := fun mark hmark =>
    (hresult.origin mark hmark).imp_left (List.mem_append_left _)
  exact ⟨hresult.fits, topOf_cons h hbelow hresult.le hresult.nodup horigin⟩

theorem FollowsAll.two {l r : Term} (hl : FollowsAll l) (hr : FollowsAll r)
    (h : (allOf old).Nodup) (hbelow : ∀ mark ∈ allOf old, mark < supply) :
    let top := (topOf old).run supply
    let left := (follow (old.bind first?) l).run top.2
    let right := (follow (old.bind second?) r).run left.2
    (Fits l left.1 ∧ Fits r right.1) ∧ supply ≤ right.2 ∧
      (top.1 :: (left.1.all ++ right.1.all)).Nodup ∧
      ∀ mark ∈ top.1 :: (left.1.all ++ right.1.all),
        mark ∈ allOf old ∨ supply ≤ mark ∧ mark < right.2 := by
  intro top left right
  obtain ⟨hsupply, -⟩ := topOf_spec h hbelow
  have hchildren := nodup_children h
  have hold : ∀ mark ∈ allOf (old.bind first?) ++ allOf (old.bind second?), mark < top.2 :=
    fun mark hmark => Nat.lt_of_lt_of_le (hbelow mark (subset_children old hmark)) hsupply
  have hleft : Follows (old.bind first?) l top.2 left :=
    hl hchildren.of_append_left fun mark hmark => hold mark (List.mem_append_left _ hmark)
  have hright : Follows (old.bind second?) r left.2 right :=
    hr hchildren.of_append_right fun mark hmark =>
      Nat.lt_of_lt_of_le (hold mark (List.mem_append_right _ hmark)) hleft.le
  obtain ⟨hnodup, horigin⟩ := hleft.beside hchildren hold hright
  exact ⟨⟨hleft.fits, hright.fits⟩,
    topOf_cons h hbelow (Nat.le_trans hleft.le hright.le) hnodup horigin⟩

/-- Marks that follow old ones are as they should be, for every term. -/
theorem followsAll (t : Term) : FollowsAll t := by
  induction t with
  | var | constr | lit =>
      intro old supply h hbelow
      obtain ⟨hle, hnodup, horigin⟩ := topOf_cons h hbelow (Nat.le_refl _) List.nodup_nil
        fun _ hmark => absurd hmark List.not_mem_nil
      exact ⟨by constructor, hle, hnodup, horigin⟩
  | lam param body id ih =>
      intro old supply h hbelow
      obtain ⟨hfits, hle, hnodup, horigin⟩ := ih.one h hbelow
      exact ⟨.lam param id _ hfits, hle, hnodup, horigin⟩
  | neg operand ih =>
      intro old supply h hbelow
      obtain ⟨hfits, hle, hnodup, horigin⟩ := ih.one h hbelow
      exact ⟨.neg _ hfits, hle, hnodup, horigin⟩
  | letIn name value body id ihv ihb =>
      intro old supply h hbelow
      obtain ⟨⟨hvalue, hbody⟩, hle, hnodup, horigin⟩ := ihv.two ihb h hbelow
      exact ⟨.letIn name id _ hvalue hbody, hle, hnodup, horigin⟩
  | app fn arg ihf iha =>
      intro old supply h hbelow
      obtain ⟨⟨hfn, harg⟩, hle, hnodup, horigin⟩ := ihf.two iha h hbelow
      exact ⟨.app _ hfn harg, hle, hnodup, horigin⟩
  | arith op l r ihl ihr =>
      intro old supply h hbelow
      obtain ⟨⟨hl, hr⟩, hle, hnodup, horigin⟩ := ihl.two ihr h hbelow
      exact ⟨.arith op _ hl hr, hle, hnodup, horigin⟩

end Follow

end Marks

end Contractum
