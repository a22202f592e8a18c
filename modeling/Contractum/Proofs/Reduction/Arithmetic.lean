import Contractum.Proofs.Reduction.Steps
import Mathlib.Data.Rat.Floor

/-!
# Arithmetic has one answer

Every step of a term of literals and operators takes one operator away and keeps the value, in
whatever order the steps are taken. While a term with a value is no literal, some operator in it
has literal operands and a result. So all sequences of steps end in the literal of the value, and
in as many steps as there are operators. A division by zero leaves a term without a value, and no
step gives it one.
-/

namespace Contractum.Term

variable {t u c : Term} {i n : Nat} {k : Int}

/-- Terms of literals and operators alone. -/
@[simp] def IsArithmetic : Term → Prop
  | lit _ => True
  | arith _ left right => left.IsArithmetic ∧ right.IsArithmetic
  | neg operand => operand.IsArithmetic
  | _ => False

/-- The number of operators, signs included. -/
@[simp] def operators : Term → Nat
  | var _ _ | constr _ | lit _ => 0
  | lam _ body _ => body.operators
  | letIn _ value body _ => value.operators + body.operators
  | app fn arg => fn.operators + arg.operators
  | arith _ left right => left.operators + right.operators + 1
  | neg operand => operand.operators + 1

/-- The value of a term of arithmetic, unless something in it is divided by zero. Quotients are
rounded down. -/
@[simp] def value? : Term → Option Int
  | lit n => some n
  | arith .add left right => do return (← left.value?) + (← right.value?)
  | arith .sub left right => do return (← left.value?) - (← right.value?)
  | arith .mul left right => do return (← left.value?) * (← right.value?)
  | arith .div left right => do
    let m ← left.value?
    let n ← right.value?
    if n = 0 then none else return ⌊(m : ℚ) / n⌋
  | neg operand => operand.value?.map (- ·)
  | _ => none

/-- Some division in the term has a divisor of value zero. -/
def DividesByZero (t : Term) : Prop :=
  ∃ path left right, t.get? path = some (arith .div left right) ∧ right.value? = some 0

theorem floor_div_eq_fdiv (m n : Int) : ⌊(m : ℚ) / n⌋ = m.fdiv n := by
  have hnonneg : ∀ (m : Int) (d : Nat), ⌊(m : ℚ) / (d : Int)⌋ = m.fdiv d := by
    intro m d
    rw [Int.fdiv_eq_ediv_of_nonneg m (Int.natCast_nonneg d)]
    exact Rat.floor_intCast_div_natCast m d
  obtain ⟨d, rfl | rfl⟩ := n.eq_nat_or_neg
  · exact hnonneg m d
  · rw [← Int.neg_fdiv_neg m, Int.neg_neg, ← hnonneg, Int.cast_neg, Int.cast_neg, div_neg, neg_div]

/-- A step evaluates operators as the values of terms are told. -/
theorem value?_arith (op : Op) (left right : Term) :
    (arith op left right).value? =
      left.value?.bind fun m => right.value?.bind fun n => op.eval? m n := by
  cases op <;> simp [Op.eval?, floor_div_eq_fdiv]

theorem IsArithmetic.child (ht : t.IsArithmetic) (hchild : HasChild t i c) : c.IsArithmetic := by
  cases hchild with
  | left => exact ht.1
  | right => exact ht.2
  | operand => exact ht
  | body | letValue | letBody | fn | arg => exact ht.elim

/-- A part without a value leaves the whole without one. -/
theorem value?_eq_none_of_child (ht : t.IsArithmetic) (hchild : HasChild t i c)
    (h : c.value? = none) : t.value? = none := by
  cases hchild with
  | left op left right => rw [value?_arith, h, Option.bind_none]
  | right op left right => simp [value?_arith, h]
  | operand => rw [value?, h, Option.map_none]
  | body | letValue | letBody | fn | arg => exact ht.elim

theorem DividesByZero.of_child (hchild : HasChild t i c) (h : c.DividesByZero) :
    t.DividesByZero := by
  obtain ⟨path, left, right, hget, hzero⟩ := h
  refine ⟨i :: path, left, right, ?_, hzero⟩
  rw [get?, child?_eq_some_iff.mpr hchild, Option.bind_some, hget]

/-- Divisions by zero are all that can leave a term of arithmetic without a value. -/
theorem value?_eq_none_iff (ht : t.IsArithmetic) : t.value? = none ↔ t.DividesByZero := by
  constructor
  · intro h
    induction t with
    | lit => cases h
    | arith op left right ihl ihr =>
        cases hleft : left.value? with
        | none => exact (ihl ht.1 hleft).of_child (.left op left right)
        | some m =>
            cases hright : right.value? with
            | none => exact (ihr ht.2 hright).of_child (.right op left right)
            | some n =>
                rw [value?_arith, hleft, hright] at h
                obtain ⟨rfl, rfl⟩ := Op.eval?_eq_none_iff.mp h
                exact ⟨[], left, right, get?_nil _, hright⟩
    | neg operand ih =>
        exact (ih ht (Option.map_eq_none_iff.mp h)).of_child (.operand operand)
    | var | constr | lam | letIn | app => exact ht.elim
  · rintro ⟨path, left, right, hget, hzero⟩
    induction path generalizing t with
    | nil =>
        rw [get?_nil, Option.some_inj] at hget
        subst hget
        simp [hzero]
    | cons i path ih =>
        obtain ⟨c, hc, hget⟩ := Option.bind_eq_some_iff.mp hget
        have hchild : HasChild t i c := child?_eq_some_iff.mp hc
        exact value?_eq_none_of_child ht hchild (ih (ht.child hchild) hget)

theorem Contracts.arithmetic (h : Contracts t u) (ht : t.IsArithmetic) :
    u.IsArithmetic ∧ u.value? = t.value? ∧ u.operators + 1 = t.operators := by
  cases h with
  | beta => exact ht.elim
  | arith hvalue => exact ⟨trivial, by simp [value?_arith, hvalue], rfl⟩
  | neg n => exact ⟨trivial, rfl, rfl⟩

/-- A step keeps the value and takes one operator away. -/
theorem Reduces.arithmetic (h : Reduces t u) (ht : t.IsArithmetic) :
    u.IsArithmetic ∧ u.value? = t.value? ∧ u.operators + 1 = t.operators := by
  induction h with
  | root contracts => exact contracts.arithmetic ht
  | inChild child _ ih =>
      obtain ⟨hd, hvalue, hoperators⟩ := ih (ht.child child)
      cases child with
      | left op left right =>
          refine ⟨⟨hd, ht.2⟩, ?_, ?_⟩
          · rw [setChild, value?_arith, value?_arith, hvalue]
          · simp only [setChild, operators]
            omega
      | right op left right =>
          refine ⟨⟨ht.1, hd⟩, ?_, ?_⟩
          · rw [setChild, value?_arith, value?_arith, hvalue]
          · simp only [setChild, operators]
            omega
      | operand =>
          refine ⟨hd, ?_, ?_⟩
          · rw [setChild, value?, value?, hvalue]
          · simp only [setChild, operators]
            omega
      | body | letValue | letBody | fn | arg => exact ht.elim

/-- Steps keep the value, and take away as many operators as they are. -/
theorem StepsIn.arithmetic (h : StepsIn n t u) (ht : t.IsArithmetic) :
    u.IsArithmetic ∧ u.value? = t.value? ∧ u.operators + n = t.operators := by
  induction h with
  | none => exact ⟨ht, rfl, rfl⟩
  | step first _ ih =>
      obtain ⟨hu, hvalue, hoperators⟩ := (stepsTo_iff_reduces.mp first).arithmetic ht
      obtain ⟨hv, hvalue', hoperators'⟩ := ih hu
      exact ⟨hv, hvalue'.trans hvalue, by omega⟩

/-- A term with a value is a literal or has a step. -/
theorem exists_reduces (ht : t.IsArithmetic) (h : t.value? = some k) :
    t = lit k ∨ ∃ u, Reduces t u := by
  induction t generalizing k with
  | lit n =>
      cases h
      exact .inl rfl
  | arith op left right ihl ihr =>
      rw [value?_arith] at h
      obtain ⟨m, hleft, h⟩ := Option.bind_eq_some_iff.mp h
      obtain ⟨n, hright, h⟩ := Option.bind_eq_some_iff.mp h
      right
      rcases ihl ht.1 hleft with rfl | ⟨u, hu⟩
      · rcases ihr ht.2 hright with rfl | ⟨u, hu⟩
        · exact ⟨lit k, .root (.arith h)⟩
        · exact ⟨_, .inChild (.right op (lit m) right) hu⟩
      · exact ⟨_, .inChild (.left op left right) hu⟩
  | neg operand ih =>
      obtain ⟨n, hoperand, -⟩ := Option.map_eq_some_iff.mp h
      right
      rcases ih ht hoperand with rfl | ⟨u, hu⟩
      · exact ⟨_, .root (.neg n)⟩
      · exact ⟨_, .inChild (.operand operand) hu⟩
  | var | constr | lam | letIn | app => exact ht.elim

/-- As many steps as there are operators lead a term with a value to its literal. -/
theorem stepsIn_operators (ht : t.IsArithmetic) (h : t.value? = some k) :
    StepsIn t.operators t (lit k) := by
  generalize hn : t.operators = n
  induction n generalizing t with
  | zero =>
      rcases exists_reduces ht h with rfl | ⟨u, hu⟩
      · exact .none _
      · obtain ⟨-, -, hoperators⟩ := hu.arithmetic ht
        omega
  | succ n ih =>
      rcases exists_reduces ht h with rfl | ⟨u, hu⟩
      · cases hn
      · obtain ⟨hu', hvalue, hoperators⟩ := hu.arithmetic ht
        exact .step (stepsTo_iff_reduces.mpr hu) (ih hu' (hvalue.trans h) (by omega))

/-- In whatever order steps are taken, a term of arithmetic has no more of them than operators. If
it divides by zero nowhere, all sequences of steps go on to the literal of its value, in as many
steps as there are operators, and none stops before. If it divides by zero somewhere, none leads
to a literal. -/
theorem arithmetic_one_answer (t : Term) (ht : t.IsArithmetic) :
    (∀ n u, StepsIn n t u → n ≤ t.operators) ∧
      (¬ t.DividesByZero → ∃ k, t.value? = some k ∧ ∀ n u, StepsIn n t u →
        StepsIn (t.operators - n) u (lit k) ∧
          ((∀ v, ¬ u.StepsTo v) → n = t.operators ∧ u = lit k)) ∧
      (t.DividesByZero → ∀ n u, StepsIn n t u → ∀ k, u ≠ lit k) := by
  refine ⟨?_, ?_, ?_⟩
  · intro n u h
    obtain ⟨-, -, hoperators⟩ := h.arithmetic ht
    omega
  · intro hzero
    have hsome : t.value? ≠ none := fun h => hzero ((value?_eq_none_iff ht).mp h)
    obtain ⟨k, hk⟩ := Option.ne_none_iff_exists'.mp hsome
    refine ⟨k, hk, ?_⟩
    intro n u h
    obtain ⟨hu, hvalue, hoperators⟩ := h.arithmetic ht
    have hvalue' : u.value? = some k := hvalue.trans hk
    constructor
    · rw [← hoperators, Nat.add_sub_cancel]
      exact stepsIn_operators hu hvalue'
    · intro hend
      rcases exists_reduces hu hvalue' with rfl | ⟨v, hv⟩
      · exact ⟨by simpa using hoperators, rfl⟩
      · exact absurd (stepsTo_iff_reduces.mpr hv) (hend v)
  · rintro hzero n u h k rfl
    obtain ⟨-, hvalue, -⟩ := h.arithmetic ht
    rw [(value?_eq_none_iff ht).mpr hzero] at hvalue
    contradiction

/-- The term `-(2 - 9) / -2`. -/
def roundedQuotient : Term :=
  arith .div (neg (arith .sub (lit 2) (lit 9))) (neg (lit 2))

/-- The term `3 * 4 + 1 / (2 - 2)`. -/
def zeroDivisor : Term :=
  arith .add (arith .mul (lit 3) (lit 4)) (arith .div (lit 1) (arith .sub (lit 2) (lit 2)))

theorem arithmetic_one_answer_rounded :
    roundedQuotient.IsArithmetic ∧ ¬ roundedQuotient.DividesByZero ∧
      (∀ n u, StepsIn n roundedQuotient u → StepsIn (4 - n) u (lit (-4))) ∧
      zeroDivisor.IsArithmetic ∧ zeroDivisor.DividesByZero ∧
      ∀ n u, StepsIn n zeroDivisor u → n ≤ 4 ∧ ∀ k, u ≠ lit k := by
  have hrounded : roundedQuotient.IsArithmetic := by simp [roundedQuotient]
  have hvalue : roundedQuotient.value? = some (-4) := by decide +kernel
  have hnowhere : ¬ roundedQuotient.DividesByZero := by
    rw [← value?_eq_none_iff hrounded, hvalue]
    exact Option.some_ne_none _
  have hdivisor : zeroDivisor.IsArithmetic := by simp [zeroDivisor]
  have hsomewhere : zeroDivisor.DividesByZero :=
    (value?_eq_none_iff hdivisor).mp (by decide +kernel)
  obtain ⟨-, hsteps, -⟩ := arithmetic_one_answer roundedQuotient hrounded
  obtain ⟨hbound, -, hstuck⟩ := arithmetic_one_answer zeroDivisor hdivisor
  refine ⟨hrounded, hnowhere, ?_, hdivisor, hsomewhere, ?_⟩
  · obtain ⟨k, hk, hsteps⟩ := hsteps hnowhere
    obtain rfl : k = -4 := Option.some_inj.mp (hk.symm.trans hvalue)
    intro n u h
    exact (hsteps n u h).1
  · intro n u h
    exact ⟨hbound n u h, hstuck hsomewhere n u h⟩

end Contractum.Term
