import Contractum.Proofs.Reduction.LiveMarks
import Contractum.Proofs.Reduction.Steps

/-!
# Steps in live terms

A step in a live term does what it says to the term: reducing the node at a path contracts the
subterm at that path, and nothing else changes. This rests on the marks of the live term: a change
of a node is seen at one place only, and the nodes around it keep their marks.

A live term has marks as they should be to begin with, and every step leaves such marks behind. So
the steps of live terms are the steps of terms.
-/

namespace Contractum

namespace View

open Marks

variable {t c u : Term} {marks child : Marks} {mark i : Nat} {path : Path} {changed : List View}
  {v w : View}

theorem findUnder_of_not_mem (h : Fits t marks) (hmark : mark ∉ marks.all) :
    findUnder mark t marks = none := by
  induction h with
  | var | constr | lit =>
      simp_all [findUnder, all, top, eq_comm]
  | lam | neg | letIn | app | arith =>
      simp_all [findUnder, all, eq_comm]

theorem findUnder_top (h : Fits t marks) : findUnder marks.top t marks = some ⟨t, marks⟩ := by
  cases h <;> simp [findUnder, top]

/-- Nodes whose marks no changed view has are seen as they were. -/
theorem refreshUnder_of_unchanged (h : Fits t marks)
    (hmarks : ∀ mark ∈ marks.all, changed.findSome? (find? mark) = none) :
    refreshUnder changed t marks = ⟨t, marks⟩ := by
  induction h with
  | var | constr | lit =>
      rw [refreshUnder.eq_def]
      simp [hmarks _ (top_mem_all _)]
  | lam _ _ _ _ ih | neg _ _ ih =>
      rw [refreshUnder.eq_def]
      simp [hmarks _ (top_mem_all _), ih fun mark hmark => hmarks mark (by simp [all, hmark])]
  | letIn _ _ _ _ _ ihl ihr | app _ _ _ ihl ihr | arith _ _ _ _ ihl ihr =>
      rw [refreshUnder.eq_def]
      simp [hmarks _ (top_mem_all _), ihl fun mark hmark => hmarks mark (by simp [all, hmark]),
        ihr fun mark hmark => hmarks mark (by simp [all, hmark])]

theorem get?_cons_eq_some_iff :
    View.get? t marks (i :: path) = some v ↔ ∃ c child, t.child? i = some c ∧
      marks.child? i = some child ∧ View.get? c child path = some v := by
  rw [View.get?, child?]
  cases t.child? i with
  | none => simp
  | some c => split <;> simp [Option.bind_eq_some_iff]

theorem refreshUnder_left {left right : Marks} (h : Fits c left)
    (hnodup : (two mark left right).all.Nodup) (hmarks : ∀ m ∈ (two mark left right).all,
      m ∉ right.all → changed.findSome? (find? m) = none) :
    refreshUnder changed c left = ⟨c, left⟩ := by
  apply refreshUnder_of_unchanged h
  intro m hm
  exact hmarks m (by simp [all, hm])
    (List.disjoint_of_nodup_append (List.nodup_cons.mp hnodup).2 hm)

theorem refreshUnder_right {left right : Marks} (h : Fits c right)
    (hnodup : (two mark left right).all.Nodup) (hmarks : ∀ m ∈ (two mark left right).all,
      m ∉ left.all → changed.findSome? (find? m) = none) :
    refreshUnder changed c right = ⟨c, right⟩ := by
  apply refreshUnder_of_unchanged h
  intro m hm
  exact hmarks m (by simp [all, hm])
    fun hm' => List.disjoint_of_nodup_append (List.nodup_cons.mp hnodup).2 hm' hm

/-- A change below a child is seen through the node around it, and not beside the child. -/
theorem refreshUnder_child (h : Fits t marks) (hc : t.child? i = some c)
    (hchild : marks.child? i = some child) (hnodup : marks.all.Nodup)
    (hmarks : ∀ mark ∈ marks.all, mark ∉ child.all → changed.findSome? (find? mark) = none) :
    refreshUnder changed t marks = ⟨t.setChild i (refreshUnder changed c child).term,
      marks.setChild i (refreshUnder changed c child).marks⟩ := by
  have htop : changed.findSome? (find? marks.top) = none :=
    hmarks _ (top_mem_all marks) (top_not_mem_child hnodup hchild)
  cases h with
  | var | constr | lit => cases hc
  | lam | neg =>
      rcases i with _ | i <;> cases hc
      cases hchild
      rw [refreshUnder.eq_def]
      simp only [htop, Term.setChild, Marks.setChild]
  | letIn _ _ _ fitsLeft fitsRight | app _ fitsLeft fitsRight | arith _ _ fitsLeft fitsRight =>
      rcases i with _ | _ | i <;> cases hc <;> cases hchild
      · rw [refreshUnder.eq_def]
        simp only [htop, refreshUnder_right fitsRight hnodup hmarks, Term.setChild, Marks.setChild]
      · rw [refreshUnder.eq_def]
        simp only [htop, refreshUnder_left fitsLeft hnodup hmarks, Term.setChild, Marks.setChild]

/-- A path leads to a part of a view, whose marks stand together among those of the view. -/
theorem get?_spec (h : Fits t marks) (hv : View.get? t marks path = some v) :
    t.get? path = some v.term ∧ Fits v.term v.marks ∧
      ∃ front back, marks.all = front ++ v.marks.all ++ back := by
  induction path generalizing t marks with
  | nil =>
      cases hv
      exact ⟨t.get?_nil, h, [], [], by simp⟩
  | cons i path ih =>
      obtain ⟨c, child, hc, hchild, hv⟩ := get?_cons_eq_some_iff.mp hv
      obtain ⟨hfits, -⟩ := h.setChild hc hchild
      obtain ⟨hget, hfits, front, back, hall⟩ := ih hfits hv
      obtain ⟨before, after, hmarks, -⟩ := exists_all_setChild hchild
      refine ⟨by rw [Term.get?, hc]; exact hget, hfits, before ++ front, back ++ after, ?_⟩
      rw [hmarks, hall]
      simp only [List.append_assoc]

/-- Every subterm is in a view of its own. -/
theorem exists_get? (h : Fits t marks) (hget : t.get? path = some c) :
    ∃ v, View.get? t marks path = some v ∧ v.term = c := by
  induction path generalizing t marks with
  | nil =>
      rw [Term.get?_nil, Option.some_inj] at hget
      exact ⟨⟨t, marks⟩, rfl, hget⟩
  | cons i path ih =>
      obtain ⟨d, hd, hget⟩ := Option.bind_eq_some_iff.mp hget
      obtain ⟨child, hchild, hfits⟩ := h.exists_child hd
      obtain ⟨v, hv, hterm⟩ := ih hfits hget
      exact ⟨v, get?_cons_eq_some_iff.mpr ⟨d, child, hd, hchild, hv⟩, hterm⟩

/-- A change of the node at a path alone is seen as a replacement of the subterm at that path. -/
theorem refreshUnder_at (h : Fits t marks) (hnodup : marks.all.Nodup)
    (hv : View.get? t marks path = some v) (hw : changed.findSome? (find? v.marks.top) = some w)
    (hfits : Fits w.term w.marks)
    (hmarks : ∀ mark ∈ marks.all, mark ∉ v.marks.all → changed.findSome? (find? mark) = none) :
    (refreshUnder changed t marks).term = t.replaceAt path w.term ∧
      Fits (refreshUnder changed t marks).term (refreshUnder changed t marks).marks ∧
      ∃ front back, marks.all = front ++ v.marks.all ++ back ∧
        (refreshUnder changed t marks).marks.all = front ++ w.marks.all ++ back := by
  induction path generalizing t marks with
  | nil =>
      cases hv
      have hseen : refreshUnder changed t marks = w := by
        rw [refreshUnder.eq_def]
        simp only [hw]
      rw [hseen]
      exact ⟨(t.replaceAt_nil w.term).symm, hfits, [], [], by simp, by simp⟩
  | cons i path ih =>
      obtain ⟨c, child, hc, hchild, hv⟩ := get?_cons_eq_some_iff.mp hv
      -- The marks of `v` are among those of the child, so beside the child nothing changes.
      obtain ⟨hcfits, hset⟩ := h.setChild hc hchild
      obtain ⟨before, after, hall, hallset⟩ := exists_all_setChild hchild
      obtain ⟨-, -, front, back, hcall⟩ := get?_spec hcfits hv
      have hcnodup : child.all.Nodup := by
        rw [hall] at hnodup
        exact hnodup.of_append_left.of_append_right
      have hchildren : ∀ mark ∈ child.all, mark ∉ v.marks.all →
          changed.findSome? (find? mark) = none := by
        intro mark hmark
        exact hmarks mark (by rw [hall]; simp [hmark])
      have houtside : ∀ mark ∈ marks.all, mark ∉ child.all →
          changed.findSome? (find? mark) = none := by
        intro mark hmark hnot
        apply hmarks mark hmark
        rw [hcall] at hnot
        simp only [List.mem_append, not_or] at hnot
        exact hnot.1.2
      obtain ⟨hterm, hrfits, front, back, hold, hnew⟩ := ih hcfits hcnodup hv hchildren
      rw [refreshUnder_child h hc hchild hnodup houtside]
      refine ⟨?_, hset hrfits, before ++ front, back ++ after, ?_, ?_⟩
      · rw [hterm, Term.replaceAt, hc]
      · rw [hall, hold]
        simp only [List.append_assoc]
      · rw [hallset, hnew]
        simp only [List.append_assoc]

end View

namespace Live

open Marks View

variable {live next : Live} {v w : View} {t u : Term} {path : Path} {fault : StepFault}
  {supply last : Nat}

/-- The marks of a live term are laid out like the term, differ from each other, and have been
used. -/
structure Intact (live : Live) : Prop where
  fits : Fits live.root.term live.root.marks
  nodup : live.root.marks.all.Nodup
  used : ∀ mark ∈ live.root.marks.all, mark < live.supply

theorem intact_ofTerm (t : Term) : (ofTerm t).Intact := by
  have hmarks : Follows none t 0 ((follow none t).run 0) :=
    followsAll t List.nodup_nil fun _ hmark => absurd hmark List.not_mem_nil
  refine ⟨hmarks.fits, hmarks.nodup, ?_⟩
  intro mark hmark
  rcases hmarks.origin mark hmark with hold | ⟨-, hlt⟩
  · cases hold
  · exact hlt

/-- Changed views in which a node is another term, with old marks of the node or unused ones. Nodes
outside of it are in none of them. -/
structure Changes (v : View) (t : Term) (supply last : Nat) (changed : List View) (w : View) :
    Prop where
  found : changed.findSome? (find? v.marks.top) = some w
  term : w.term = t
  fits : Fits w.term w.marks
  le : supply ≤ last
  nodup : w.marks.all.Nodup
  origin : ∀ mark ∈ w.marks.all, mark ∈ v.marks.all ∨ supply ≤ mark ∧ mark < last
  outside : ∀ mark, mark ∉ v.marks.all → mark < supply → changed.findSome? (find? mark) = none

/-- A number takes over the mark of the node. -/
theorem changes_lit (v : View) (n : Int) (supply : Nat) :
    Changes v (.lit n) supply supply [⟨.lit n, .leaf v.marks.top⟩] ⟨.lit n, .leaf v.marks.top⟩ where
  found := by
    have htop : findUnder v.marks.top (.lit n) (.leaf v.marks.top) =
      some ⟨.lit n, .leaf v.marks.top⟩ := findUnder_top (.lit n _)
    rw [List.findSome?_cons, find?, htop]
  term := rfl
  fits := .lit n _
  le := Nat.le_refl supply
  nodup := List.nodup_singleton _
  origin mark hmark := .inl (List.mem_singleton.mp hmark ▸ top_mem_all v.marks)
  outside mark hmark _ := by
    have hleaf : mark ∉ (leaf v.marks.top).all := by
      intro hmem
      exact hmark (List.mem_singleton.mp hmem ▸ top_mem_all v.marks)
    rw [List.findSome?_cons, find?, findUnder_of_not_mem (.lit n _) hleaf]
    rfl

/-- The marks of a function's body are among those of its application. -/
theorem sublist_all_beta (m n : Nat) (below beside : Marks) :
    below.all.Sublist (two m (one n below) beside).all := by
  rw [all, all]
  exact ((List.sublist_cons_self n below.all).trans (List.sublist_append_left _ _)).cons m

/-- The body of a function takes over the mark of its application. -/
theorem changes_beta {x : String} {body arg : Term} {id : Option Int} {m n : Nat}
    {below beside marks : Marks} (hnodup : (two m (one n below) beside).all.Nodup)
    (hused : ∀ mark ∈ (two m (one n below) beside).all, mark < supply)
    (hmarks : Follows (some below) t supply (marks, last)) :
    Changes ⟨.app (.lam x body id) arg, two m (one n below) beside⟩ t supply last
      [⟨t, marks.setTop m⟩, ⟨.lam x t id, one n marks⟩] ⟨t, marks.setTop m⟩ := by
  have hfits : Fits t (marks.setTop m) := hmarks.fits.setTop m
  have hbelow := (sublist_all_beta m n below beside).subset
  have hm : m ∉ below.all := by
    intro hmem
    exact (List.nodup_cons.mp hnodup).1 (by simp [all, hmem])
  have hchildren : allOf marks.first? ++ allOf marks.second? ⊆ marks.all :=
    subset_children (some marks)
  -- Old marks of the body and unused ones differ from the marks outside of the node.
  have hmarksOutside {mark : Nat} (hmark : mark ∉ below.all) (hlt : mark < supply) :
      mark ∉ marks.all := by
    intro hmem
    rcases hmarks.origin mark hmem with hold | ⟨hnew, -⟩
    · exact hmark hold
    · exact Nat.not_lt.mpr hnew hlt
  constructor
  case found =>
    have htop : findUnder m t (marks.setTop m) = some ⟨t, marks.setTop m⟩ := by
      have hfound := findUnder_top hfits
      rwa [top_setTop] at hfound
    rw [List.findSome?_cons, top, find?, htop]
  case term => rfl
  case fits => exact hfits
  case le => exact hmarks.le
  case nodup =>
    rw [all_setTop, List.nodup_cons]
    refine ⟨fun hmem => ?_, @nodup_children (some marks) hmarks.nodup⟩
    exact hmarksOutside hm (hused m List.mem_cons_self) (hchildren hmem)
  case origin =>
    intro mark hmark
    rw [all_setTop] at hmark
    rcases List.mem_cons.mp hmark with rfl | hmark
    · exact .inl List.mem_cons_self
    · exact (hmarks.origin mark (hchildren hmark)).imp_left fun hold => hbelow hold
  case outside =>
    intro mark hmark hlt
    have hnot : mark ∉ marks.all := hmarksOutside (fun hold => hmark (hbelow hold)) hlt
    have hfirst : mark ∉ (marks.setTop m).all := by
      rw [all_setTop, List.mem_cons, not_or]
      exact ⟨fun heq => hmark (heq ▸ List.mem_cons_self), fun hmem => hnot (hchildren hmem)⟩
    have hsecond : mark ∉ (one n marks).all := by
      rw [all, List.mem_cons, not_or]
      exact ⟨fun heq => hmark (by simp [all, heq]), hnot⟩
    rw [List.findSome?_cons, find?, findUnder_of_not_mem hfits hfirst]
    dsimp only
    rw [List.findSome?_cons, find?, findUnder_of_not_mem (.lam x id n hmarks.fits) hsecond]
    rfl

theorem reduce_of_error (h : v.term.contract = .error fault) :
    (reduce v).run live = (.error fault, live) := by
  rw [reduce, h]
  rfl

/-- A live term with changed views seen everywhere. -/
def published (live : Live) (changed : List View) (supply : Nat) : Live where
  root := live.root.refresh changed
  held := live.held.map fun (label, v) => (label, v.refresh changed)
  supply := supply

/-- A node that can be contracted becomes what it is contracted to. -/
theorem exists_changes (hfits : Fits v.term v.marks) (hnodup : v.marks.all.Nodup)
    (hused : ∀ mark ∈ v.marks.all, mark < live.supply) (h : v.term.contract = .ok t) :
    ∃ changed w supply, (reduce v).run live =
        (.ok v.term.redexKind?, live.published changed supply) ∧
      Changes v t live.supply supply changed w := by
  obtain ⟨term, marks⟩ := v
  have hcontracts : Term.Contracts term t := Term.contract_eq_ok_iff.mp h
  cases hcontracts with
  | beta x body id arg =>
      cases hfits with
      | @app _ _ _ beside m fits _ =>
          cases fits with
          | @lam _ below _ _ n fits =>
              have hbelow := sublist_all_beta m n below beside
              have hmarks : Follows (some below) (body.subst x arg) live.supply
                  ((follow (some below) (body.subst x arg)).run live.supply) :=
                followsAll _ (hnodup.sublist hbelow) fun mark hmark =>
                  hused mark (hbelow.subset hmark)
              exact ⟨_, _, _, rfl, changes_beta hnodup hused hmarks⟩
  | @arith op m n k hvalue =>
      refine ⟨_, _, live.supply, ?_, changes_lit _ k live.supply⟩
      rw [reduce, h]
      rfl
  | neg n => exact ⟨_, _, live.supply, rfl, changes_lit _ (-n) live.supply⟩

/-- Marks that differ from each other and have been used remain so when some of them make room for
old ones and unused ones. -/
theorem exchange {front back old new : List Nat} (hnodup : (front ++ old ++ back).Nodup)
    (hused : ∀ mark ∈ front ++ old ++ back, mark < supply) (hle : supply ≤ last)
    (hnew : new.Nodup) (horigin : ∀ mark ∈ new, mark ∈ old ∨ supply ≤ mark ∧ mark < last) :
    (front ++ new ++ back).Nodup ∧ ∀ mark ∈ front ++ new ++ back, mark < last := by
  have hperm (middle : List Nat) :
      (front ++ middle ++ back).Perm (middle ++ (front ++ back)) := by
    rw [List.append_assoc]
    exact List.perm_append_comm_assoc front middle back
  rw [(hperm old).nodup_iff] at hnodup
  have haround : ∀ mark ∈ front ++ back, mark < supply := fun mark hmark =>
    hused mark ((hperm old).mem_iff.mpr (List.mem_append_right _ hmark))
  constructor
  · rw [(hperm new).nodup_iff]
    refine hnew.append hnodup.of_append_right fun mark hmark hmark' => ?_
    rcases horigin mark hmark with hold | ⟨hunused, -⟩
    · exact hnodup.disjoint hold hmark'
    · exact Nat.not_lt.mpr hunused (haround mark hmark')
  · intro mark hmark
    rcases List.mem_append.mp ((hperm new).mem_iff.mp hmark) with hmark | hmark
    · rcases horigin mark hmark with hold | ⟨-, hlt⟩
      · exact Nat.lt_of_lt_of_le
          (hused mark ((hperm old).mem_iff.mpr (List.mem_append_left _ hold))) hle
      · exact hlt
    · exact Nat.lt_of_lt_of_le (haround mark hmark) hle

/-- A step in a live term does to the term what it says, and leaves a live term with marks as they
should be: reducing the node at a path contracts the subterm at that path. A step that is refused
changes nothing. -/
theorem reduce_agrees (h : live.Intact)
    (hv : View.get? live.root.term live.root.marks path = some v) :
    (∃ fault, live.root.term.contractAt path = .error fault ∧
        (reduce v).run live = (.error fault, live)) ∨
      ∃ next, live.root.term.contractAt path = .ok next.root.term ∧
        (reduce v).run live = (.ok v.term.redexKind?, next) ∧ next.Intact := by
  obtain ⟨hget, hfits, front, back, hall⟩ := get?_spec h.fits hv
  cases hcontract : v.term.contract with
  | error fault =>
      refine .inl ⟨fault, ?_, reduce_of_error hcontract⟩
      rw [Term.contractAt, hget]
      simp only [hcontract, Except.map]
  | ok t =>
      have hnodup : (front ++ v.marks.all ++ back).Nodup := hall ▸ h.nodup
      have hused : ∀ mark ∈ v.marks.all, mark < live.supply := fun mark hmark =>
        h.used mark (by rw [hall]; simp [hmark])
      obtain ⟨changed, w, supply, hreduce, hchanges⟩ :=
        exists_changes hfits hnodup.of_append_left.of_append_right hused hcontract
      obtain ⟨hterm, hrfits, front, back, hold, hnew⟩ := refreshUnder_at h.fits h.nodup hv
        hchanges.found hchanges.fits fun mark hmark hnot =>
          hchanges.outside mark hnot (h.used mark hmark)
      obtain ⟨hrnodup, hrused⟩ := exchange (hold ▸ h.nodup) (hold ▸ h.used) hchanges.le
        hchanges.nodup hchanges.origin
      refine .inr ⟨live.published changed supply, ?_, hreduce, hrfits, ?_, ?_⟩
      · rw [Term.contractAt_eq_ok_iff]
        exact .inr ⟨v.term, t, hget, hcontract, hchanges.term ▸ hterm⟩
      · exact hnew ▸ hrnodup
      · exact hnew ▸ hrused

/-- The argument of `(\x -> x + x) (1 + 2)` is copied, and each copy is reduced for itself. -/
example :
    let sum : Term := .arith .add (.lit 1) (.lit 2)
    let live := ofTerm (.app (.lam "x" (.arith .add (.var "x" none) (.var "x" none)) none) sum)
    let next := ((reduce live.root).run live).2
    let copy := View.get? next.root.term next.root.marks [0]
    copy.map (fun v => ((reduce v).run next).2.root.term) =
      some (.arith .add (.lit 3) sum) := by
  decide +kernel

/-- Reducing a node of a live term takes it to another. -/
def StepsTo (live next : Live) : Prop :=
  ∃ path v kind, View.get? live.root.term live.root.marks path = some v ∧
    (reduce v).run live = (.ok kind, next)

/-- `n` such steps, one after another. -/
inductive StepsIn : Nat → Live → Live → Prop
  | none (live : Live) : StepsIn 0 live live
  | step {n : Nat} {live next last : Live} (first : live.StepsTo next)
      (rest : StepsIn n next last) : StepsIn (n + 1) live last

theorem StepsTo.root (hstep : live.StepsTo next) (h : live.Intact) :
    live.root.term.StepsTo next.root.term ∧ next.Intact := by
  obtain ⟨path, v, kind, hv, hreduce⟩ := hstep
  rcases reduce_agrees h hv with ⟨fault, -, hrefused⟩ | ⟨other, hcontract, htaken, hother⟩
  · rw [hrefused] at hreduce
    cases hreduce
  · rw [htaken] at hreduce
    cases hreduce
    refine ⟨?_, hother⟩
    rw [Term.stepsTo_iff_reduces, Term.reduces_iff_replaceAt]
    obtain ⟨hget, -⟩ := get?_spec h.fits hv
    rcases Term.contractAt_eq_ok_iff.mp hcontract with ⟨hnone, -⟩ | ⟨redex, t, hredex, ht, hu⟩
    · rw [hget] at hnone
      cases hnone
    · exact ⟨path, redex, t, hredex, Term.contract_eq_ok_iff.mp ht, hu⟩

theorem exists_stepsTo (h : live.Intact) (hstep : live.root.term.StepsTo u) :
    ∃ next, live.StepsTo next ∧ next.root.term = u := by
  obtain ⟨path, kind, hlisted, hcontract⟩ := hstep
  obtain ⟨redex, hget, -⟩ := Term.mem_redexes_iff.mp hlisted
  obtain ⟨v, hv, -⟩ := exists_get? h.fits hget
  rcases reduce_agrees h hv with ⟨fault, hrefused, -⟩ | ⟨next, hnext, hreduce, -⟩
  · rw [hrefused] at hcontract
    cases hcontract
  · rw [hnext] at hcontract
    cases hcontract
    exact ⟨next, ⟨path, v, _, hv, hreduce⟩, rfl⟩

theorem StepsIn.root {n : Nat} (hsteps : StepsIn n live next) (h : live.Intact) :
    Term.StepsIn n live.root.term next.root.term ∧ next.Intact := by
  induction hsteps with
  | none live => exact ⟨.none _, h⟩
  | step first rest ih =>
      obtain ⟨hfirst, hnext⟩ := first.root h
      obtain ⟨hrest, hlast⟩ := ih hnext
      exact ⟨.step hfirst hrest, hlast⟩

/-- The steps of a live term are those of the term it shows, run after run: as many steps lead it
to a live term that shows `u` as lead the term to `u`. -/
theorem stepsIn_iff {n : Nat} (h : live.Intact) :
    (∃ last, StepsIn n live last ∧ last.root.term = u) ↔ Term.StepsIn n live.root.term u := by
  constructor
  · rintro ⟨last, hsteps, rfl⟩
    exact (hsteps.root h).1
  · intro hsteps
    induction n generalizing live with
    | zero =>
        cases hsteps
        exact ⟨live, .none live, rfl⟩
    | succ n ih =>
        cases hsteps with
        | step first rest =>
            obtain ⟨next, hnext, rfl⟩ := exists_stepsTo h first
            obtain ⟨last, hlast, hterm⟩ := ih (hnext.root h).2 rest
            exact ⟨last, .step hnext hlast, hterm⟩

/-- A live term that nothing has been done to takes the steps of its term. -/
theorem stepsIn_ofTerm_iff {n : Nat} :
    (∃ last, StepsIn n (ofTerm t) last ∧ last.root.term = u) ↔ Term.StepsIn n t u :=
  stepsIn_iff (intact_ofTerm t)

end Live

end Contractum
