import Contractum.Proofs.Grammar.Derivation
import Contractum.Proofs.Grammar.Taking

/-!
# The rules by their first tokens

The current token decides what a rule does. Each equation here is a rule at one class of
current tokens; together they cover all of them.
-/

namespace Contractum

namespace Parse

variable {depth : Nat} {scope : Scope} {p : ParseState} {left fn : Term} {x : String}

theorem term_of_letWord (h : p.stream.current.token = .mark .letWord) :
    term (depth + 1) scope p = (do
      discard next
      let x ← name
      let id ← newId
      expect .equals
      let value ← term depth scope
      expect .inWord
      let body ← term depth ((x, id) :: scope)
      return .letIn x value body id : Parse Term) p := by
  rw [term, peek_bind_run, h]

theorem term_of_lambda (h : p.stream.current.token = .mark .lambda) :
    term (depth + 1) scope p = (do
      discard next
      let x ← name
      let id ← newId
      expect .arrow
      let body ← term depth ((x, id) :: scope)
      return .lam x body id : Parse Term) p := by
  rw [term, peek_bind_run, h]

theorem term_of_unaryStart (h : p.stream.current.token.kind ∈ unaryStart) :
    term (depth + 1) scope p = sum depth scope p := by
  rw [term, peek_bind_run]
  refine congrFun ?_ p
  split
  · next htoken => exact absurd (htoken ▸ h) (by decide)
  · next htoken => exact absurd (htoken ▸ h) (by decide)
  · exact if_pos h

theorem term_of_not_termStart (h : p.stream.current.token.kind ∉ termStart) :
    term (depth + 1) scope p = fail termStart p := by
  rw [term, peek_bind_run]
  refine congrFun ?_ p
  split
  · next htoken => exact absurd (by rw [htoken]; decide) h
  · next htoken => exact absurd (by rw [htoken]; decide) h
  · apply if_neg
    intro hunary
    exact h (List.mem_append_right _ hunary)

theorem kind_eq_mark_iff {token : Token} {m : Mark} : token.kind = .mark m ↔ token = .mark m := by
  cases token <;> simp [Token.kind]

/-- A token that can begin a term does so in one of three ways. -/
theorem termStart_cases {token : Token} (h : token.kind ∈ termStart) :
    token = .mark .letWord ∨ token = .mark .lambda ∨ token.kind ∈ unaryStart := by
  rcases List.mem_append.mp h with hbinder | hunary
  · simp only [List.mem_cons, List.not_mem_nil, or_false, kind_eq_mark_iff] at hbinder
    exact hbinder.imp_right .inl
  · exact .inr (.inr hunary)

/-- The operators of sums are those whose tier is the sum, each by its own token. -/
theorem sumOp?_eq_some_iff {token : Token} {op : Op} :
    sumOp? token = some op ↔ token = .mark op.mark ∧ op.tier = .sum := by
  constructor
  · intro h
    unfold sumOp? at h
    split at h <;> cases h <;> exact ⟨rfl, rfl⟩
  · rintro ⟨rfl, htier⟩
    cases op <;> first | rfl | cases htier

/-- The operators of products are those whose tier is the product, each by its own token. -/
theorem prodOp?_eq_some_iff {token : Token} {op : Op} :
    prodOp? token = some op ↔ token = .mark op.mark ∧ op.tier = .prod := by
  constructor
  · intro h
    unfold prodOp? at h
    split at h <;> cases h <;> exact ⟨rfl, rfl⟩
  · rintro ⟨rfl, htier⟩
    cases op <;> first | rfl | cases htier

theorem sum_eq : sum (depth + 1) scope = (do
    let left ← prod depth scope
    sumTail depth scope left) := by
  rw [sum]

theorem sumTail_of_op {op : Op} (h : sumOp? p.stream.current.token = some op) :
    sumTail (depth + 1) scope left p = (do
      discard next
      let right ← prod depth scope
      sumTail depth scope (.arith op left right) : Parse Term) p := by
  rw [sumTail, peek_bind_run, h]

theorem sumTail_of_none (h : sumOp? p.stream.current.token = none) :
    sumTail (depth + 1) scope left p = .ok left p := by
  rw [sumTail, peek_bind_run, h]
  rfl

theorem prod_eq : prod (depth + 1) scope = (do
    let left ← unary depth scope
    prodTail depth scope left) := by
  rw [prod]

theorem prodTail_of_op {op : Op} (h : prodOp? p.stream.current.token = some op) :
    prodTail (depth + 1) scope left p = (do
      discard next
      let right ← unary depth scope
      prodTail depth scope (.arith op left right) : Parse Term) p := by
  rw [prodTail, peek_bind_run, h]

theorem prodTail_of_none (h : prodOp? p.stream.current.token = none) :
    prodTail (depth + 1) scope left p = .ok left p := by
  rw [prodTail, peek_bind_run, h]
  rfl

theorem unary_of_minus (h : p.stream.current.token = .mark .minus) :
    unary (depth + 1) scope p = (do
      discard next
      let operand ← unary depth scope
      return .neg operand : Parse Term) p := by
  rw [unary, peek_bind_run, h]

theorem unary_of_atomStart (h : p.stream.current.token.kind ∈ atomStart) :
    unary (depth + 1) scope p = app depth scope p := by
  rw [unary, peek_bind_run]
  refine congrFun ?_ p
  split
  · next htoken => exact absurd (htoken ▸ h) (by decide)
  · exact if_pos h

theorem unary_of_not_unaryStart (h : p.stream.current.token.kind ∉ unaryStart) :
    unary (depth + 1) scope p = fail unaryStart p := by
  rw [unary, peek_bind_run]
  refine congrFun ?_ p
  split
  · next htoken => exact absurd (by rw [htoken]; decide) h
  · apply if_neg
    intro hatom
    exact h (List.mem_append_left _ hatom)

/-- A token that can begin a negation or an application is a minus sign or begins an atom. -/
theorem unaryStart_cases {token : Token} (h : token.kind ∈ unaryStart) :
    token = .mark .minus ∨ token.kind ∈ atomStart := by
  rcases List.mem_append.mp h with hatom | hminus
  · exact .inr hatom
  · exact .inl (kind_eq_mark_iff.mp (List.mem_singleton.mp hminus))

theorem app_eq : app (depth + 1) scope = (do
    let fn ← atom depth scope
    appTail depth scope fn) := by
  rw [app]

theorem appTail_of_atomStart (h : p.stream.current.token.kind ∈ atomStart) :
    appTail (depth + 1) scope fn p = (do
      let arg ← atom depth scope
      appTail depth scope (.app fn arg) : Parse Term) p := by
  rw [appTail, peek_bind_run, if_pos h]

theorem appTail_of_not_atomStart (h : p.stream.current.token.kind ∉ atomStart) :
    appTail (depth + 1) scope fn p = .ok fn p := by
  rw [appTail, peek_bind_run, if_neg h]
  rfl

theorem atom_of_bound {id : Option Int} (h : p.stream.current.token = .var x)
    (hid : scope.lookup x = some id) :
    atom (depth + 1) scope p = (do
      discard next
      return .var x id : Parse Term) p := by
  simp only [atom, peek_bind_run, h, hid]

theorem atom_of_unbound (h : p.stream.current.token = .var x) (hid : scope.lookup x = none) :
    atom (depth + 1) scope p = (do
      discard next
      throw (.freeVariable x p.stream.current.start p.stream.current.stop) : Parse Term) p := by
  simp only [atom, peek_bind_run, h, hid]

theorem atom_of_constr (h : p.stream.current.token = .constr x) :
    atom (depth + 1) scope p = (do
      discard next
      return .constr x : Parse Term) p := by
  rw [atom, peek_bind_run, h]

theorem atom_of_literal {k : Nat} (h : p.stream.current.token = .literal k) :
    atom (depth + 1) scope p = (do
      discard next
      return .lit k : Parse Term) p := by
  rw [atom, peek_bind_run, h]

theorem atom_of_opening (h : p.stream.current.token = .mark .opening) :
    atom (depth + 1) scope p = (do
      discard next
      let inner ← term depth scope
      expect .closing
      return inner : Parse Term) p := by
  rw [atom, peek_bind_run, h]

theorem atom_of_not_atomStart (h : p.stream.current.token.kind ∉ atomStart) :
    atom (depth + 1) scope p = fail atomStart p := by
  rw [atom, peek_bind_run]
  refine congrFun ?_ p
  split
  · next htoken => exact absurd (by rw [htoken, Token.kind]; decide) h
  · next htoken => exact absurd (by rw [htoken, Token.kind]; decide) h
  · next htoken => exact absurd (by rw [htoken, Token.kind]; decide) h
  · next htoken => exact absurd (by rw [htoken]; decide) h
  · rfl

/-- A token that can begin an atom does so in one of four ways. -/
theorem atomStart_cases {token : Token} (h : token.kind ∈ atomStart) :
    (∃ x, token = .var x) ∨ (∃ c, token = .constr c) ∨ (∃ k, token = .literal k) ∨
      token = .mark .opening := by
  cases token with
  | mark m =>
      have hm : m = .opening := by simpa [Token.kind, atomStart] using h
      exact .inr (.inr (.inr (congrArg Token.mark hm)))
  | var x => exact .inl ⟨x, rfl⟩
  | constr c => exact .inr (.inl ⟨c, rfl⟩)
  | literal k => exact .inr (.inr (.inl ⟨k, rfl⟩))
  | finish | unknown => simp [Token.kind, atomStart] at h

end Parse

end Contractum
