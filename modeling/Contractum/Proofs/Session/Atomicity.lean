import Contractum.Proofs.Session.Run
import Contractum.Proofs.Spelling.RoundTrip

/-!
# Failing reductions

A reduction that fails leaves term, history and recorded steps as they were, with one
exception: a step whose result is too long to be written. Its failure comes when the step is to
be recorded, behind the change of the work, and nothing takes the change back.
-/

namespace Contractum

open Text

theorem Work.stepped_ne (work : Work) (t : Term) : work.stepped t ≠ work := by
  intro h
  have hlength : (work.stepped t).past.length = work.past.length := by rw [h]
  simp [Work.stepped] at hlength

namespace Session

variable {s s' : Session} {index : Int} {fault : Fault}

/-- Reducing by a number comes to a redex, and the step gives a term too long to be written. -/
def Outgrows (s : Session) (index : Int) : Prop :=
  ∃ work kind t, Attempts s index work kind (.ok t) ∧ t.isWritable = false

/-- A failing reduction changes nothing unless its result is too long to be written. -/
theorem reduce_error (h : reduce index s = .error fault s') (hwithin : ¬ s.Outgrows index) :
    s' = s := by
  have hreduction : Reduction s index (reduce index s) := reduction s index
  rw [h] at hreduction
  cases hreduction with
  | noTerm | noRedex | noNumber | refused => rfl
  | unrecorded attempt long => exact absurd ⟨_, _, _, attempt, long⟩ hwithin

/-- A failing reduction leaves term, history and recorded steps as they were exactly if it is
none to a term too long to be written. Such a reduction fails for the length alone, behind the
step that it has taken and not recorded. -/
theorem reduce_atomic_iff (s : Session) (index : Int) (fault : Fault) (s' : Session)
    (h : reduce index s = .error fault s') :
    (s'.work = s.work ∧ s'.reporter.steps = s.reporter.steps ↔ ¬ s.Outgrows index) ∧
      ∀ work kind t, Attempts s index work kind (.ok t) → t.isWritable = false →
        fault = .defect .unwritable ∧ s' = { s with work := some (work.stepped t) } := by
  have hoverlong : ∀ work kind t, Attempts s index work kind (.ok t) → t.isWritable = false →
      fault = .defect .unwritable ∧ s' = { s with work := some (work.stepped t) } := by
    intro work kind t hattempt hlong
    rw [reduce_of_long hattempt hlong] at h
    cases h
    exact ⟨rfl, rfl⟩
  refine ⟨⟨?_, ?_⟩, hoverlong⟩
  · rintro ⟨hwork, -⟩ ⟨work, kind, t, hattempt, hlong⟩
    obtain ⟨-, rfl⟩ := hoverlong work kind t hattempt hlong
    rw [hattempt.1] at hwork
    exact work.stepped_ne t (Option.some.inj hwork)
  · intro hwithin
    rw [reduce_error h hwithin]
    exact ⟨rfl, rfl⟩

/-- A session in which a step was taken, and the redex it made divides by zero. -/
def dividing : Session :=
  run (start ⟨false, false, false, [], ""⟩) [.submit "(\\x -> 1 / x) 0", .reduce 0]

theorem reduce_atomic_dividing :
    reduce 0 dividing = .error (.ofStep (.divisionByZero 1)) dividing ∧
      ¬ dividing.Outgrows 0 := by
  have hwork : dividing.work = some ⟨"(\\x -> 1 / x) 0", .arith .div (.lit 1) (.lit 0),
      [.app (.lam "x" (.arith .div (.lit 1) (.var "x" (some 0))) (some 0)) (.lit 0)]⟩ := by
    decide +kernel
  have hreduce : reduce 0 dividing = .error (.ofStep (.divisionByZero 1)) dividing :=
    reduce_of_refused ⟨hwork, [], rfl, rfl⟩
  obtain ⟨hatomic, -⟩ := reduce_atomic_iff dividing 0 _ _ hreduce
  exact ⟨hreduce, hatomic.mp ⟨rfl, rfl⟩⟩

/-- A number of half as many digits as can be written. -/
def halfBound : Nat := Nat.pow 10 2150

/-- The product of two such numbers, which takes one digit too many to be written. -/
def longProduct : Term := .arith .mul (.lit halfBound) (.lit halfBound)

theorem parse_longProduct : Term.parse longProduct.render = .ok longProduct := by
  have hlexical : longProduct.isLexical = true := by decide +kernel
  have hwritable : longProduct.isWritable = true := by decide +kernel
  have hclosed : ∀ x, ¬ longProduct.unsigned.eraseIds.isFree x = true := by
    intro x
    rw [Term.isFree_eraseIds, Term.isFree_unsigned]
    exact Bool.false_ne_true
  have hparse := (Term.writes_render hlexical hwritable).parse hclosed
  have hnumbered : longProduct.unsigned.eraseIds.numbered = longProduct := by decide +kernel
  rwa [hnumbered] at hparse

theorem contractAt_longProduct :
    longProduct.contractAt [] = .ok (.lit (halfBound * halfBound)) := rfl

theorem isWritable_product : (Term.lit (halfBound * halfBound)).isWritable = false := by
  decide +kernel

theorem work_submit {text : String} {t : Term} (h : Term.parse text = .ok t)
    (reporter : Reporter) :
    (run (start reporter) [.submit text]).work = some ⟨text, t, []⟩ := by
  have hsubmit := submit_run h (start reporter)
  simp [run, perform, after, hsubmit]

theorem attempts_longProduct {s : Session} {text : String}
    (h : s.work = some ⟨text, longProduct, []⟩) :
    Attempts s 0 ⟨text, longProduct, []⟩ .arithmetic (.ok (.lit (halfBound * halfBound))) :=
  ⟨h, [], rfl, contractAt_longProduct⟩

/-- Reducing that product fails, and has replaced the term and added to the history. -/
theorem reduce_longProduct :
    let s := run (start ⟨false, false, false, [], ""⟩) [.submit longProduct.render]
    ∃ s', reduce 0 s = .error (.defect .unwritable) s' ∧
      s.work = some ⟨longProduct.render, longProduct, []⟩ ∧
      s'.work = some ⟨longProduct.render, .lit (halfBound * halfBound), [longProduct]⟩ := by
  have hwork := work_submit parse_longProduct ⟨false, false, false, [], ""⟩
  exact ⟨_, reduce_of_long (attempts_longProduct hwork) isWritable_product, hwork, rfl⟩

end Session

end Contractum
