import Contractum.Proofs.Grammar.Derivation
import Contractum.Proofs.Grammar.Numbering
import Contractum.Proofs.Grammar.Rules

/-!
# What the parser accepts is derivable

A rule that succeeds has passed over tokens that its tier derives, and its result is their
tree with the binders numbered. The tails of sums, products and applications go on from
what was read before them, so they are described by what they add to an earlier reading.
-/

namespace Contractum

namespace Parse

/-- A reading: the tokens between two states are derived, the tree is in scope, and the term
is that tree numbered from the count of the first state on. -/
def Reads (tier : Tier) (scope : Scope) (p : ParseState) (u : Term) (p' : ParseState) : Prop :=
  ∃ ts t, p.stream.Passes ts p'.stream ∧ Derives tier ts t ∧ t.ScopedIn scope ∧
    u = t.numberFrom p.count scope ∧ p'.count = p.count + t.binders

variable {tier : Tier} {scope : Scope} {p p₀ q r : ParseState} {s₁ s₂ s₃ s₄ : Stream}
variable {depth k : Nat} {x : String} {left u v : Term}

/-- A tighter tier is read where a looser one is expected. -/
theorem Reads.loosen {looser : Tier} (h : Reads tier scope p u q)
    (hloose : ∀ {ts t}, Derives tier ts t → Derives looser ts t) : Reads looser scope p u q := by
  obtain ⟨ts, t, hpass, hderives, hrest⟩ := h
  exact ⟨ts, t, hpass, hloose hderives, hrest⟩

theorem reads_letIn (hlet : p.stream.Takes (.mark .letWord) s₁) (hname : s₁.Takes (.var x) s₂)
    (hequals : s₂.Takes (.mark .equals) s₃)
    (hvalue : Reads .term scope ⟨s₃, p.count + 1⟩ u q) (hin : q.stream.Takes (.mark .inWord) s₄)
    (hbody : Reads .term ((x, some (p.count : Int)) :: scope) ⟨s₄, q.count⟩ v r) :
    Reads .term scope p (.letIn x u v (some p.count)) r := by
  obtain ⟨vs, t, hvs, hvalue, hvscope, rfl, hq⟩ := hvalue
  obtain ⟨bs, b, hbs, hbody, hbscope, rfl, hr⟩ := hbody
  dsimp only at hvs hq hbs hr
  refine ⟨_, .letIn x t b none, ?_, .letIn hvalue hbody, ?_, ?_, ?_⟩
  · exact .step hlet (.step hname (.step hequals (hvs.append (.step hin hbs))))
  · exact Term.scopedIn_letIn_iff.mpr ⟨hvscope, hbscope⟩
  · rw [Term.numberFrom, hq]
  · rw [Term.binders, hr, hq]
    omega

theorem reads_lam (hlambda : p.stream.Takes (.mark .lambda) s₁) (hname : s₁.Takes (.var x) s₂)
    (harrow : s₂.Takes (.mark .arrow) s₃)
    (hbody : Reads .term ((x, some (p.count : Int)) :: scope) ⟨s₃, p.count + 1⟩ u q) :
    Reads .term scope p (.lam x u (some p.count)) q := by
  obtain ⟨bs, b, hbs, hbody, hscope, rfl, hq⟩ := hbody
  dsimp only at hbs hq
  refine ⟨_, .lam x b none, ?_, .lam hbody, ?_, ?_, ?_⟩
  · exact .step hlambda (.step hname (.step harrow hbs))
  · exact Term.scopedIn_lam_iff.mpr hscope
  · rw [Term.numberFrom]
  · rw [Term.binders, hq]
    omega

/-- An operator joins what was read before it to what is read behind it. -/
theorem reads_arith {right : Tier} {op : Op}
    (hderives : ∀ {ls rs l r}, Derives tier ls l → Derives right rs r →
      Derives tier (ls ++ .mark op.mark :: rs) (.arith op l r))
    (hleft : Reads tier scope p u q) (hop : q.stream.Takes (.mark op.mark) s₁)
    (hright : Reads right scope ⟨s₁, q.count⟩ v r) : Reads tier scope p (.arith op u v) r := by
  obtain ⟨ls, l, hls, hl, hlscope, rfl, hq⟩ := hleft
  obtain ⟨rs, r, hrs, hr, hrscope, rfl, hk⟩ := hright
  dsimp only at hrs hk
  refine ⟨_, .arith op l r, hls.append (.step hop hrs), hderives hl hr, ?_, ?_, ?_⟩
  · exact Term.scopedIn_arith_iff.mpr ⟨hlscope, hrscope⟩
  · rw [Term.numberFrom, hq]
  · rw [Term.binders, hk, hq, Nat.add_assoc]

theorem reads_neg (hminus : p.stream.Takes (.mark .minus) s₁)
    (hoperand : Reads .unary scope ⟨s₁, p.count⟩ u q) : Reads .unary scope p (.neg u) q := by
  obtain ⟨ts, t, hts, ht, hscope, rfl, hq⟩ := hoperand
  exact ⟨_, .neg t, .step hminus hts, .neg ht, hscope, rfl, hq⟩

theorem reads_app (hfn : Reads .app scope p u q) (harg : Reads .atom scope q v r) :
    Reads .app scope p (.app u v) r := by
  obtain ⟨fs, f, hfs, hf, hfscope, rfl, hq⟩ := hfn
  obtain ⟨as, a, has, ha, hascope, rfl, hr⟩ := harg
  refine ⟨_, .app f a, hfs.append has, .app hf ha, ?_, ?_, ?_⟩
  · exact Term.scopedIn_app_iff.mpr ⟨hfscope, hascope⟩
  · rw [Term.numberFrom, hq]
  · rw [Term.binders, hr, hq, Nat.add_assoc]

theorem reads_var {id : Option Int} (htake : p.stream.Takes (.var x) s₁)
    (hid : scope.lookup x = some id) : Reads .atom scope p (.var x id) ⟨s₁, p.count⟩ := by
  refine ⟨_, .var x none, htake.passes, .var x, ?_, ?_, rfl⟩
  · rw [Term.scopedIn_var_iff, hid]
    rfl
  · rw [Term.numberFrom, hid]
    rfl

theorem reads_constr (htake : p.stream.Takes (.constr x) s₁) :
    Reads .atom scope p (.constr x) ⟨s₁, p.count⟩ :=
  ⟨_, .constr x, htake.passes, .constr x, fun _ h => absurd h Bool.false_ne_true, rfl, rfl⟩

theorem reads_literal (htake : p.stream.Takes (.literal k) s₁) :
    Reads .atom scope p (.lit k) ⟨s₁, p.count⟩ :=
  ⟨_, .lit k, htake.passes, .literal k, fun _ h => absurd h Bool.false_ne_true, rfl, rfl⟩

theorem reads_parens (hopening : p.stream.Takes (.mark .opening) s₁)
    (hinner : Reads .term scope ⟨s₁, p.count⟩ u q) (hclosing : q.stream.Takes (.mark .closing) s₂) :
    Reads .atom scope p u ⟨s₂, q.count⟩ := by
  obtain ⟨ts, t, hts, ht, hrest⟩ := hinner
  exact ⟨_, t, .step hopening (hts.append hclosing.passes), .parens ht, hrest⟩

/-- Every rule that succeeds at some depth has read a term of its tier, the tails together with
what was read before them. -/
structure Sound (depth : Nat) : Prop where
  term : ∀ {scope p u q}, Parse.term depth scope p = .ok u q → Reads .term scope p u q
  sum : ∀ {scope p u q}, Parse.sum depth scope p = .ok u q → Reads .sum scope p u q
  sumTail : ∀ {scope p₀ left p u q}, Parse.sumTail depth scope left p = .ok u q →
    Reads .sum scope p₀ left p → Reads .sum scope p₀ u q
  prod : ∀ {scope p u q}, Parse.prod depth scope p = .ok u q → Reads .prod scope p u q
  prodTail : ∀ {scope p₀ left p u q}, Parse.prodTail depth scope left p = .ok u q →
    Reads .prod scope p₀ left p → Reads .prod scope p₀ u q
  unary : ∀ {scope p u q}, Parse.unary depth scope p = .ok u q → Reads .unary scope p u q
  app : ∀ {scope p u q}, Parse.app depth scope p = .ok u q → Reads .app scope p u q
  appTail : ∀ {scope p₀ fn p u q}, Parse.appTail depth scope fn p = .ok u q →
    Reads .app scope p₀ fn p → Reads .app scope p₀ u q
  atom : ∀ {scope p u q}, Parse.atom depth scope p = .ok u q → Reads .atom scope p u q

theorem reads_of_term (ih : Sound depth) (h : term (depth + 1) scope p = .ok u q) :
    Reads .term scope p u q := by
  by_cases hstart : p.stream.current.token.kind ∈ termStart
  · rcases termStart_cases hstart with hlet | hlambda | hunary
    · rw [term_of_letWord hlet] at h
      simp only [bind_eq_ok_iff, discard_next_eq_ok_iff hlet, name_eq_ok_iff, newId_eq_ok_iff,
        expect_eq_ok_iff, pure_eq_ok_iff] at h
      obtain ⟨-, -, ⟨s₁, hlet, rfl⟩, x, -, ⟨s₂, hname, rfl⟩, -, -, ⟨rfl, rfl⟩, -, -,
        ⟨s₃, hequals, rfl⟩, value, q₁, hvalue, -, -, ⟨s₄, hin, rfl⟩, body, q₂, hbody, rfl, rfl⟩ := h
      exact reads_letIn hlet hname hequals (ih.term hvalue) hin (ih.term hbody)
    · rw [term_of_lambda hlambda] at h
      simp only [bind_eq_ok_iff, discard_next_eq_ok_iff hlambda, name_eq_ok_iff, newId_eq_ok_iff,
        expect_eq_ok_iff, pure_eq_ok_iff] at h
      obtain ⟨-, -, ⟨s₁, hlambda, rfl⟩, x, -, ⟨s₂, hname, rfl⟩, -, -, ⟨rfl, rfl⟩, -, -,
        ⟨s₃, harrow, rfl⟩, body, q₁, hbody, rfl, rfl⟩ := h
      exact reads_lam hlambda hname harrow (ih.term hbody)
    · rw [term_of_unaryStart hunary] at h
      exact (ih.sum h).loosen .ofSum
  · rw [term_of_not_termStart hstart] at h
    exact absurd h fail_ne_ok

theorem reads_of_sum (ih : Sound depth) (h : sum (depth + 1) scope p = .ok u q) :
    Reads .sum scope p u q := by
  rw [sum_eq, bind_eq_ok_iff] at h
  obtain ⟨left, p₁, hleft, htail⟩ := h
  exact ih.sumTail htail ((ih.prod hleft).loosen .ofProd)

theorem reads_of_sumTail (ih : Sound depth) (h : sumTail (depth + 1) scope left p = .ok u q)
    (hleft : Reads .sum scope p₀ left p) : Reads .sum scope p₀ u q := by
  cases hop : sumOp? p.stream.current.token with
  | some op =>
      obtain ⟨htoken, htier⟩ := sumOp?_eq_some_iff.mp hop
      rw [sumTail_of_op hop] at h
      simp only [bind_eq_ok_iff, discard_next_eq_ok_iff htoken] at h
      obtain ⟨-, -, ⟨s₁, hop, rfl⟩, right, p₁, hright, htail⟩ := h
      exact ih.sumTail htail (reads_arith (.sum htier) hleft hop (ih.prod hright))
  | none =>
      rw [sumTail_of_none hop] at h
      cases h
      exact hleft

theorem reads_of_prod (ih : Sound depth) (h : prod (depth + 1) scope p = .ok u q) :
    Reads .prod scope p u q := by
  rw [prod_eq, bind_eq_ok_iff] at h
  obtain ⟨left, p₁, hleft, htail⟩ := h
  exact ih.prodTail htail ((ih.unary hleft).loosen .ofUnary)

theorem reads_of_prodTail (ih : Sound depth) (h : prodTail (depth + 1) scope left p = .ok u q)
    (hleft : Reads .prod scope p₀ left p) : Reads .prod scope p₀ u q := by
  cases hop : prodOp? p.stream.current.token with
  | some op =>
      obtain ⟨htoken, htier⟩ := prodOp?_eq_some_iff.mp hop
      rw [prodTail_of_op hop] at h
      simp only [bind_eq_ok_iff, discard_next_eq_ok_iff htoken] at h
      obtain ⟨-, -, ⟨s₁, hop, rfl⟩, right, p₁, hright, htail⟩ := h
      exact ih.prodTail htail (reads_arith (.prod htier) hleft hop (ih.unary hright))
  | none =>
      rw [prodTail_of_none hop] at h
      cases h
      exact hleft

theorem reads_of_unary (ih : Sound depth) (h : unary (depth + 1) scope p = .ok u q) :
    Reads .unary scope p u q := by
  by_cases hstart : p.stream.current.token.kind ∈ unaryStart
  · rcases unaryStart_cases hstart with hminus | hatom
    · rw [unary_of_minus hminus] at h
      simp only [bind_eq_ok_iff, discard_next_eq_ok_iff hminus, pure_eq_ok_iff] at h
      obtain ⟨-, -, ⟨s₁, hminus, rfl⟩, operand, q₁, hoperand, rfl, rfl⟩ := h
      exact reads_neg hminus (ih.unary hoperand)
    · rw [unary_of_atomStart hatom] at h
      exact (ih.app h).loosen .ofApp
  · rw [unary_of_not_unaryStart hstart] at h
    exact absurd h fail_ne_ok

theorem reads_of_app (ih : Sound depth) (h : app (depth + 1) scope p = .ok u q) :
    Reads .app scope p u q := by
  rw [app_eq, bind_eq_ok_iff] at h
  obtain ⟨fn, p₁, hfn, htail⟩ := h
  exact ih.appTail htail ((ih.atom hfn).loosen .ofAtom)

theorem reads_of_appTail (ih : Sound depth) (h : appTail (depth + 1) scope left p = .ok u q)
    (hleft : Reads .app scope p₀ left p) : Reads .app scope p₀ u q := by
  by_cases hatom : p.stream.current.token.kind ∈ atomStart
  · rw [appTail_of_atomStart hatom, bind_eq_ok_iff] at h
    obtain ⟨arg, p₁, harg, htail⟩ := h
    exact ih.appTail htail (reads_app hleft (ih.atom harg))
  · rw [appTail_of_not_atomStart hatom] at h
    cases h
    exact hleft

theorem reads_of_atom (ih : Sound depth) (h : atom (depth + 1) scope p = .ok u q) :
    Reads .atom scope p u q := by
  by_cases hstart : p.stream.current.token.kind ∈ atomStart
  · rcases atomStart_cases hstart with ⟨x, hvar⟩ | ⟨c, hconstr⟩ | ⟨k, hliteral⟩ | hopening
    · cases hid : scope.lookup x with
      | some id =>
          rw [atom_of_bound hvar hid] at h
          simp only [bind_eq_ok_iff, discard_next_eq_ok_iff hvar, pure_eq_ok_iff] at h
          obtain ⟨-, -, ⟨s₁, htake, rfl⟩, rfl, rfl⟩ := h
          exact reads_var htake hid
      | none =>
          rw [atom_of_unbound hvar hid, bind_eq_ok_iff] at h
          obtain ⟨-, p₁, -, hthrow⟩ := h
          exact absurd hthrow throw_ne_ok
    · rw [atom_of_constr hconstr] at h
      simp only [bind_eq_ok_iff, discard_next_eq_ok_iff hconstr, pure_eq_ok_iff] at h
      obtain ⟨-, -, ⟨s₁, htake, rfl⟩, rfl, rfl⟩ := h
      exact reads_constr htake
    · rw [atom_of_literal hliteral] at h
      simp only [bind_eq_ok_iff, discard_next_eq_ok_iff hliteral, pure_eq_ok_iff] at h
      obtain ⟨-, -, ⟨s₁, htake, rfl⟩, rfl, rfl⟩ := h
      exact reads_literal htake
    · rw [atom_of_opening hopening] at h
      simp only [bind_eq_ok_iff, discard_next_eq_ok_iff hopening, expect_eq_ok_iff,
        pure_eq_ok_iff] at h
      obtain ⟨-, -, ⟨s₁, hopening, rfl⟩, inner, p₁, hinner, -, -, ⟨s₂, hclosing, rfl⟩,
        rfl, rfl⟩ := h
      exact reads_parens hopening (ih.term hinner) hclosing
  · rw [atom_of_not_atomStart hstart] at h
    exact absurd h fail_ne_ok

/-- Rules that succeed have read a term of their tier, at every depth. -/
theorem sound (depth : Nat) : Sound depth := by
  induction depth with
  | zero =>
      constructor <;> intros <;> exact absurd ‹_› throw_ne_ok
  | succ depth ih =>
      exact ⟨reads_of_term ih, reads_of_sum ih, reads_of_sumTail ih, reads_of_prod ih,
        reads_of_prodTail ih, reads_of_unary ih, reads_of_app ih, reads_of_appTail ih,
        reads_of_atom ih⟩

end Parse

end Contractum
