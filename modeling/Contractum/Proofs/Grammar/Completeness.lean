import Contractum.Proofs.Grammar.Derivation
import Contractum.Proofs.Grammar.Numbering
import Contractum.Proofs.Grammar.Rules

/-!
# What is derivable is accepted

The rule of a tier reads every list of tokens that the tier derives, provided that no loop
of it goes on with the token behind them. The loops of sums, products and applications are
described at their next turn, so that a derivation whose left part is of the same tier is
one more turn.

The depth that a rule needs is counted along: a tier more for every call between two
tokens, and all tiers again for every token.
-/

namespace Contractum

open Parse

namespace Tier

/-- The kinds that the tokens of a tier begin with. -/
def starts : Tier → List Kind
  | term => termStart
  | sum | prod | unary => unaryStart
  | app | atom => atomStart

/-- Whether the reading of a tier stops before a token: at its end, or at the next turn of
its loop for the tiers that have one. -/
def StopsAt : Tier → Token → Prop
  | term, token => token.kind ∉ atomStart ∧ prodOp? token = none ∧ sumOp? token = none
  | sum, token => token.kind ∉ atomStart ∧ prodOp? token = none
  | prod, token | unary, token => token.kind ∉ atomStart
  | app, _ | atom, _ => True

end Tier

namespace Derives

variable {tier : Tier} {ts : List Token} {t : Term}

/-- No tier derives the empty list, and the first token shows that the tier begins. -/
theorem starts (h : Derives tier ts t) :
    ∃ token rest, ts = token :: rest ∧ token.kind ∈ tier.starts := by
  induction h with
  | letIn _ _ _ _ => exact ⟨_, _, rfl, by decide⟩
  | lam _ _ => exact ⟨_, _, rfl, by decide⟩
  | ofSum _ ih =>
      obtain ⟨token, rest, rfl, hstart⟩ := ih
      exact ⟨token, rest, rfl, List.mem_append_right _ hstart⟩
  | sum _ _ _ ih _ | prod _ _ _ ih _ | app _ _ ih _ =>
      obtain ⟨token, rest, rfl, hstart⟩ := ih
      exact ⟨token, _, rfl, hstart⟩
  | ofProd _ ih | ofUnary _ ih | ofAtom _ ih => exact ih
  | neg _ _ => exact ⟨_, _, rfl, by decide⟩
  | ofApp _ ih =>
      obtain ⟨token, rest, rfl, hstart⟩ := ih
      exact ⟨token, rest, rfl, List.mem_append_left _ hstart⟩
  | var x => exact ⟨_, _, rfl, by simp [Token.kind, Tier.starts, atomStart]⟩
  | constr c => exact ⟨_, _, rfl, by simp [Token.kind, Tier.starts, atomStart]⟩
  | literal n => exact ⟨_, _, rfl, by simp [Token.kind, Tier.starts, atomStart]⟩
  | parens _ _ => exact ⟨_, _, rfl, by decide⟩

theorem length_pos (h : Derives tier ts t) : 0 < ts.length := by
  obtain ⟨token, rest, rfl, -⟩ := h.starts
  exact Nat.succ_pos _

/-- A stream that passes over the tokens of a tier has a current token that begins it. -/
theorem current_mem_starts {s s' : Stream} (h : Derives tier ts t) (hpass : s.Passes ts s') :
    s.current.token.kind ∈ tier.starts := by
  obtain ⟨token, rest, rfl, hstart⟩ := h.starts
  obtain ⟨s₁, hfirst, -⟩ := Stream.passes_cons_iff.mp hpass
  rwa [hfirst.1]

end Derives

namespace Parse

/-- What the rule of a tier comes to: a result, or for the tiers with a loop the next turn
of it, where at most one level of depth was spent for each of `used` tokens. -/
def Comes (depth : Nat) (scope : Scope) (p : ParseState) (used : Nat) (u : Term) (q : ParseState) :
    Tier → Prop
  | .term => term depth scope p = .ok u q
  | .sum => ∃ d, depth ≤ d + used ∧ sum depth scope p = sumTail d scope u q
  | .prod => ∃ d, depth ≤ d + used ∧ prod depth scope p = prodTail d scope u q
  | .unary => unary depth scope p = .ok u q
  | .app => ∃ d, depth ≤ d + used ∧ app depth scope p = appTail d scope u q
  | .atom => atom depth scope p = .ok u q

/-- A tier reads a list of tokens: wherever they stand before a token at which the tier stops,
and whatever scope the tree is in, its rule comes to the numbered tree. -/
def ReadsAll (tier : Tier) (ts : List Token) (t : Term) : Prop :=
  ∀ depth scope count {s s'}, s.Passes ts s' → t.ScopedIn scope → tier.StopsAt s'.current.token →
    8 * ts.length + 6 ≤ depth + tier.rank →
      Comes depth scope ⟨s, count⟩ ts.length (t.numberFrom count scope) ⟨s', count + t.binders⟩ tier

variable {depth count : Nat} {scope : Scope} {s s' : Stream}
variable {x : String} {op : Op} {ts us : List Token} {t u : Term}

theorem ReadsAll.term_run (h : ReadsAll .term ts t) (hpass : s.Passes ts s')
    (hscope : t.ScopedIn scope) (hstop : Tier.term.StopsAt s'.current.token)
    (hdepth : 8 * ts.length + 6 ≤ depth) :
    term depth scope ⟨s, count⟩ = .ok (t.numberFrom count scope) ⟨s', count + t.binders⟩ :=
  h depth scope count hpass hscope hstop hdepth

theorem ReadsAll.sum_run (h : ReadsAll .sum ts t) (hpass : s.Passes ts s')
    (hscope : t.ScopedIn scope) (hstop : Tier.term.StopsAt s'.current.token)
    (hdepth : 8 * ts.length + 5 ≤ depth) :
    sum depth scope ⟨s, count⟩ = .ok (t.numberFrom count scope) ⟨s', count + t.binders⟩ := by
  obtain ⟨hatom, hprod, hsum⟩ := hstop
  obtain ⟨d, hd, hrun⟩ := h depth scope count hpass hscope ⟨hatom, hprod⟩ (by rw [Tier.rank]; omega)
  obtain ⟨d, rfl⟩ := Nat.exists_eq_add_one.mpr (show 0 < d by omega)
  rw [hrun]
  exact sumTail_of_none hsum

theorem ReadsAll.prod_run (h : ReadsAll .prod ts t) (hpass : s.Passes ts s')
    (hscope : t.ScopedIn scope) (hstop : Tier.sum.StopsAt s'.current.token)
    (hdepth : 8 * ts.length + 4 ≤ depth) :
    prod depth scope ⟨s, count⟩ = .ok (t.numberFrom count scope) ⟨s', count + t.binders⟩ := by
  obtain ⟨hatom, hprod⟩ := hstop
  obtain ⟨d, hd, hrun⟩ := h depth scope count hpass hscope hatom (by rw [Tier.rank]; omega)
  obtain ⟨d, rfl⟩ := Nat.exists_eq_add_one.mpr (show 0 < d by omega)
  rw [hrun]
  exact prodTail_of_none hprod

theorem ReadsAll.unary_run (h : ReadsAll .unary ts t) (hpass : s.Passes ts s')
    (hscope : t.ScopedIn scope) (hstop : s'.current.token.kind ∉ atomStart)
    (hdepth : 8 * ts.length + 3 ≤ depth) :
    unary depth scope ⟨s, count⟩ = .ok (t.numberFrom count scope) ⟨s', count + t.binders⟩ :=
  h depth scope count hpass hscope hstop (by rw [Tier.rank]; omega)

theorem ReadsAll.app_run (h : ReadsAll .app ts t) (hpass : s.Passes ts s')
    (hscope : t.ScopedIn scope) (hstop : s'.current.token.kind ∉ atomStart)
    (hdepth : 8 * ts.length + 2 ≤ depth) :
    app depth scope ⟨s, count⟩ = .ok (t.numberFrom count scope) ⟨s', count + t.binders⟩ := by
  obtain ⟨d, hd, hrun⟩ := h depth scope count hpass hscope trivial (by rw [Tier.rank]; omega)
  obtain ⟨d, rfl⟩ := Nat.exists_eq_add_one.mpr (show 0 < d by omega)
  rw [hrun]
  exact appTail_of_not_atomStart hstop

theorem ReadsAll.atom_run (h : ReadsAll .atom ts t) (hpass : s.Passes ts s')
    (hscope : t.ScopedIn scope) (hdepth : 8 * ts.length + 1 ≤ depth) :
    atom depth scope ⟨s, count⟩ = .ok (t.numberFrom count scope) ⟨s', count + t.binders⟩ :=
  h depth scope count hpass hscope trivial (by rw [Tier.rank]; omega)

/-- No rule reads at depth zero, and the needed depth is more than that. -/
theorem readsAll_of_succ {tier : Tier}
    (h : ∀ depth scope count {s s'}, s.Passes ts s' → t.ScopedIn scope →
      tier.StopsAt s'.current.token → 8 * ts.length + 6 ≤ depth + 1 + tier.rank →
        Comes (depth + 1) scope ⟨s, count⟩ ts.length (t.numberFrom count scope)
          ⟨s', count + t.binders⟩ tier) : ReadsAll tier ts t := by
  intro depth scope count s s' hpass hscope hstop hdepth
  have hrank : tier.rank ≤ 5 := Tier.rank_le_atom tier
  obtain ⟨d, rfl⟩ := Nat.exists_eq_add_one.mpr (show 0 < depth by omega)
  exact h d scope count hpass hscope hstop hdepth

theorem readsAll_letIn {vs bs : List Token} {v b : Term} (hvalue : ReadsAll .term vs v)
    (hbody : ReadsAll .term bs b) :
    ReadsAll .term (.mark .letWord :: .var x :: .mark .equals :: (vs ++ .mark .inWord :: bs))
      (.letIn x v b none) := by
  apply readsAll_of_succ
  intro d scope count s s' hpass hscope hstop hdepth
  simp only [Stream.passes_cons_iff, Stream.passes_append_iff] at hpass
  obtain ⟨s₁, hlet, s₂, hname, s₃, hequals, s₄, hvs, s₅, hin, hbs⟩ := hpass
  obtain ⟨hvscope, hbscope⟩ := Term.scopedIn_letIn_iff.mp hscope
  simp only [List.length_cons, List.length_append, Tier.rank] at hdepth
  have hinStops : Tier.term.StopsAt s₄.current.token := by
    rw [hin.1]
    exact ⟨by decide, rfl, rfl⟩
  change term (d + 1) scope ⟨s, count⟩ = _
  rw [term_of_letWord hlet.1, bind_run (discard_next_run hlet), bind_run (name_run hname),
    bind_run newId_run, bind_run (expect_run hequals),
    bind_run (hvalue.term_run hvs hvscope hinStops (by omega)), bind_run (expect_run hin),
    bind_run (hbody.term_run hbs hbscope hstop (by omega)), Term.binders, Term.numberFrom]
  have hcount : count + 1 + v.binders + b.binders = count + (v.binders + b.binders + 1) := by omega
  rw [hcount]
  rfl

theorem readsAll_lam {bs : List Token} {b : Term} (hbody : ReadsAll .term bs b) :
    ReadsAll .term (.mark .lambda :: .var x :: .mark .arrow :: bs) (.lam x b none) := by
  apply readsAll_of_succ
  intro d scope count s s' hpass hscope hstop hdepth
  simp only [Stream.passes_cons_iff] at hpass
  obtain ⟨s₁, hlambda, s₂, hname, s₃, harrow, hbs⟩ := hpass
  simp only [List.length_cons, Tier.rank] at hdepth
  change term (d + 1) scope ⟨s, count⟩ = _
  rw [term_of_lambda hlambda.1, bind_run (discard_next_run hlambda), bind_run (name_run hname),
    bind_run newId_run, bind_run (expect_run harrow),
    bind_run (hbody.term_run hbs (Term.scopedIn_lam_iff.mp hscope) hstop (by omega)),
    Term.binders, Term.numberFrom, Nat.add_right_comm, Nat.add_assoc]
  rfl

theorem readsAll_term_of_sum (hsum : ReadsAll .sum ts t) (hderives : Derives .sum ts t) :
    ReadsAll .term ts t := by
  apply readsAll_of_succ
  intro d scope count s s' hpass hscope hstop hdepth
  simp only [Tier.rank] at hdepth
  change term (d + 1) scope ⟨s, count⟩ = _
  rw [term_of_unaryStart (hderives.current_mem_starts hpass)]
  exact hsum.sum_run hpass hscope hstop (by omega)

/-- An operator of a sum stops the product before it. -/
theorem stopsAt_sum_mark (htier : op.tier = .sum) : Tier.sum.StopsAt (.mark op.mark) := by
  cases op with
  | add | sub => exact ⟨by decide, rfl⟩
  | mul | div => cases htier

theorem readsAll_sum {ls rs : List Token} {l r : Term} (htier : op.tier = .sum)
    (hleft : ReadsAll .sum ls l) (hright : ReadsAll .prod rs r) :
    ReadsAll .sum (ls ++ .mark op.mark :: rs) (.arith op l r) := by
  intro depth scope count s s' hpass hscope hstop hdepth
  simp only [Stream.passes_cons_iff, Stream.passes_append_iff] at hpass
  obtain ⟨s₁, hls, s₂, hop, hrs⟩ := hpass
  obtain ⟨hlscope, hrscope⟩ := Term.scopedIn_arith_iff.mp hscope
  simp only [List.length_cons, List.length_append, Tier.rank] at hdepth ⊢
  have hpause : Tier.sum.StopsAt s₁.current.token := by
    rw [hop.1]
    exact stopsAt_sum_mark htier
  obtain ⟨d, hd, hrun⟩ := hleft depth scope count hls hlscope hpause (by rw [Tier.rank]; omega)
  obtain ⟨d, rfl⟩ := Nat.exists_eq_add_one.mpr (show 0 < d by omega)
  have hsumOp : sumOp? s₁.current.token = some op := sumOp?_eq_some_iff.mpr ⟨hop.1, htier⟩
  refine ⟨d, by omega, ?_⟩
  rw [hrun, sumTail_of_op hsumOp, bind_run (discard_next_run hop),
    bind_run (hright.prod_run hrs hrscope hstop (by omega)), Term.binders, Term.numberFrom,
    Nat.add_assoc]

theorem readsAll_sum_of_prod (hprod : ReadsAll .prod ts t) (hpos : 0 < ts.length) :
    ReadsAll .sum ts t := by
  apply readsAll_of_succ
  intro d scope count s s' hpass hscope hstop hdepth
  simp only [Tier.rank] at hdepth
  refine ⟨d, by omega, ?_⟩
  rw [sum_eq, bind_run (hprod.prod_run hpass hscope hstop (by omega))]

/-- An operator of a product stops the application before it. -/
theorem stopsAt_prod_mark (htier : op.tier = .prod) : Tier.prod.StopsAt (.mark op.mark) := by
  cases op with
  | add | sub => cases htier
  | mul | div =>
      change Token.kind _ ∉ atomStart
      decide

theorem readsAll_prod {ls rs : List Token} {l r : Term} (htier : op.tier = .prod)
    (hleft : ReadsAll .prod ls l) (hright : ReadsAll .unary rs r) :
    ReadsAll .prod (ls ++ .mark op.mark :: rs) (.arith op l r) := by
  intro depth scope count s s' hpass hscope hstop hdepth
  simp only [Stream.passes_cons_iff, Stream.passes_append_iff] at hpass
  obtain ⟨s₁, hls, s₂, hop, hrs⟩ := hpass
  obtain ⟨hlscope, hrscope⟩ := Term.scopedIn_arith_iff.mp hscope
  simp only [List.length_cons, List.length_append, Tier.rank] at hdepth ⊢
  have hpause : Tier.prod.StopsAt s₁.current.token := by
    rw [hop.1]
    exact stopsAt_prod_mark htier
  obtain ⟨d, hd, hrun⟩ := hleft depth scope count hls hlscope hpause (by rw [Tier.rank]; omega)
  obtain ⟨d, rfl⟩ := Nat.exists_eq_add_one.mpr (show 0 < d by omega)
  have hprodOp : prodOp? s₁.current.token = some op := prodOp?_eq_some_iff.mpr ⟨hop.1, htier⟩
  refine ⟨d, by omega, ?_⟩
  rw [hrun, prodTail_of_op hprodOp, bind_run (discard_next_run hop),
    bind_run (hright.unary_run hrs hrscope hstop (by omega)), Term.binders, Term.numberFrom,
    Nat.add_assoc]

theorem readsAll_prod_of_unary (hunary : ReadsAll .unary ts t) (hpos : 0 < ts.length) :
    ReadsAll .prod ts t := by
  apply readsAll_of_succ
  intro d scope count s s' hpass hscope hstop hdepth
  simp only [Tier.rank] at hdepth
  refine ⟨d, by omega, ?_⟩
  rw [prod_eq, bind_run (hunary.unary_run hpass hscope hstop (by omega))]

theorem readsAll_neg (hoperand : ReadsAll .unary ts t) :
    ReadsAll .unary (.mark .minus :: ts) (.neg t) := by
  apply readsAll_of_succ
  intro d scope count s s' hpass hscope hstop hdepth
  obtain ⟨s₁, hminus, hts⟩ := Stream.passes_cons_iff.mp hpass
  simp only [List.length_cons, Tier.rank] at hdepth
  change unary (d + 1) scope ⟨s, count⟩ = _
  rw [unary_of_minus hminus.1, bind_run (discard_next_run hminus),
    bind_run (hoperand.unary_run hts hscope hstop (by omega))]
  rfl

theorem readsAll_unary_of_app (happ : ReadsAll .app ts t) (hderives : Derives .app ts t) :
    ReadsAll .unary ts t := by
  apply readsAll_of_succ
  intro d scope count s s' hpass hscope hstop hdepth
  simp only [Tier.rank] at hdepth
  change unary (d + 1) scope ⟨s, count⟩ = _
  rw [unary_of_atomStart (hderives.current_mem_starts hpass)]
  exact happ.app_run hpass hscope hstop (by omega)

/-- An argument is one more turn of the loop, since its first token begins an atom. -/
theorem readsAll_app {fs as : List Token} {f a : Term} (hfn : ReadsAll .app fs f)
    (harg : ReadsAll .atom as a) (hderives : Derives .atom as a) :
    ReadsAll .app (fs ++ as) (.app f a) := by
  intro depth scope count s s' hpass hscope hstop hdepth
  obtain ⟨s₁, hfs, has⟩ := Stream.passes_append_iff.mp hpass
  obtain ⟨hfscope, hascope⟩ := Term.scopedIn_app_iff.mp hscope
  have hpos := hderives.length_pos
  simp only [List.length_append, Tier.rank] at hdepth ⊢
  obtain ⟨d, hd, hrun⟩ := hfn depth scope count hfs hfscope trivial (by rw [Tier.rank]; omega)
  obtain ⟨d, rfl⟩ := Nat.exists_eq_add_one.mpr (show 0 < d by omega)
  have hatom : s₁.current.token.kind ∈ atomStart := hderives.current_mem_starts has
  refine ⟨d, by omega, ?_⟩
  rw [hrun, appTail_of_atomStart hatom, bind_run (harg.atom_run has hascope (by omega)),
    Term.binders, Term.numberFrom, Nat.add_assoc]

theorem readsAll_app_of_atom (hatom : ReadsAll .atom ts t) (hpos : 0 < ts.length) :
    ReadsAll .app ts t := by
  apply readsAll_of_succ
  intro d scope count s s' hpass hscope hstop hdepth
  simp only [Tier.rank] at hdepth
  refine ⟨d, by omega, ?_⟩
  rw [app_eq, bind_run (hatom.atom_run hpass hscope (by omega))]

theorem readsAll_var (x : String) : ReadsAll .atom [.var x] (.var x none) := by
  apply readsAll_of_succ
  intro d scope count s s' hpass hscope hstop hdepth
  have htake := Stream.passes_singleton_iff.mp hpass
  obtain ⟨id, hid⟩ := Option.isSome_iff_exists.mp (Term.scopedIn_var_iff.mp hscope)
  simp only [List.length_singleton, Tier.rank] at hdepth
  change atom (d + 1) scope ⟨s, count⟩ = _
  rw [atom_of_bound htake.1 hid, bind_run (discard_next_run htake), Term.numberFrom, hid]
  rfl

theorem readsAll_constr (c : String) : ReadsAll .atom [.constr c] (.constr c) := by
  apply readsAll_of_succ
  intro d scope count s s' hpass hscope hstop hdepth
  have htake := Stream.passes_singleton_iff.mp hpass
  simp only [List.length_singleton, Tier.rank] at hdepth
  change atom (d + 1) scope ⟨s, count⟩ = _
  rw [atom_of_constr htake.1, bind_run (discard_next_run htake)]
  rfl

theorem readsAll_literal (n : Nat) : ReadsAll .atom [.literal n] (.lit n) := by
  apply readsAll_of_succ
  intro d scope count s s' hpass hscope hstop hdepth
  have htake := Stream.passes_singleton_iff.mp hpass
  simp only [List.length_singleton, Tier.rank] at hdepth
  change atom (d + 1) scope ⟨s, count⟩ = _
  rw [atom_of_literal htake.1, bind_run (discard_next_run htake)]
  rfl

theorem readsAll_parens (hinner : ReadsAll .term ts t) :
    ReadsAll .atom (.mark .opening :: (ts ++ [.mark .closing])) t := by
  apply readsAll_of_succ
  intro d scope count s s' hpass hscope hstop hdepth
  simp only [Stream.passes_cons_iff, Stream.passes_append_iff, Stream.passes_nil_iff] at hpass
  obtain ⟨s₁, hopening, s₂, hts, s₃, hclosing, rfl⟩ := hpass
  simp only [List.length_cons, List.length_append, List.length_nil, Tier.rank] at hdepth
  have hclosingStops : Tier.term.StopsAt s₂.current.token := by
    rw [hclosing.1]
    exact ⟨by decide, rfl, rfl⟩
  change atom (d + 1) scope ⟨s, count⟩ = _
  rw [atom_of_opening hopening.1, bind_run (discard_next_run hopening),
    bind_run (hinner.term_run hts hscope hclosingStops (by omega)),
    bind_run (expect_run hclosing)]
  rfl

/-- Every tier reads every list of tokens that it derives. -/
theorem readsAll {tier : Tier} (h : Derives tier ts t) : ReadsAll tier ts t := by
  induction h with
  | letIn _ _ ihv ihb => exact readsAll_letIn ihv ihb
  | lam _ ih => exact readsAll_lam ih
  | ofSum sum ih => exact readsAll_term_of_sum ih sum
  | sum htier _ _ ihl ihr => exact readsAll_sum htier ihl ihr
  | ofProd prod ih => exact readsAll_sum_of_prod ih prod.length_pos
  | prod htier _ _ ihl ihr => exact readsAll_prod htier ihl ihr
  | ofUnary unary ih => exact readsAll_prod_of_unary ih unary.length_pos
  | neg _ ih => exact readsAll_neg ih
  | ofApp app ih => exact readsAll_unary_of_app ih app
  | app _ arg ihf iha => exact readsAll_app ihf iha arg
  | ofAtom atom ih => exact readsAll_app_of_atom ih atom.length_pos
  | var x => exact readsAll_var x
  | constr c => exact readsAll_constr c
  | literal n => exact readsAll_literal n
  | parens _ ih => exact readsAll_parens ih

end Parse

end Contractum
