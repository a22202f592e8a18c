import Contractum.Proofs.Grammar.Lookahead

/-!
# Where readings fail

Every rule of the grammar, called at a place of its tier, fails at a token that nothing can
follow there, or passes tokens that its tier derives, unless a literal of too many digits ends it.
In both cases it has looked at one token behind those that it passed, so a rule that is given more
depth, and more names that its scope does not have, comes to the same end wherever the same tokens
stand.

The depth counts along as it does for derivable tokens: what is in front of the stream bounds it,
and so no reading ends for want of the depth that `depthBound` gives it. The limit of the machine on
nested calls is not part of this.
-/

namespace Contractum

namespace Parse

/-- The rule of a tier is mirrored at every place of the tier, at this depth and all greater
ones, in its scope and all that extend it. -/
def RuleMirrors (tier : Tier) (rule : Nat → Scope → Parse Term) (depth : Nat) : Prop :=
  ∀ ⦃depth' : Nat⦄ ⦃scope extra : Scope⦄ ⦃ts : List Token⦄ ⦃p : ParseState⦄, depth ≤ depth' →
    Place ts scope tier → Ended p.stream.items → 8 * p.stream.ahead.length + 6 ≤ depth + tier.rank →
      Mirrors (extra = []) ts p (rule depth' (scope ++ extra)) (rule depth scope p)

/-- The tail of a tier is mirrored behind what the tier derives at a place of it. -/
def TailMirrors (tier : Tier) (tail : Nat → Scope → Term → Parse Term) (depth : Nat) : Prop :=
  ∀ ⦃depth' : Nat⦄ ⦃scope extra : Scope⦄ ⦃ts us : List Token⦄ ⦃t left : Term⦄ ⦃p : ParseState⦄,
    depth ≤ depth' → Place ts scope tier → Derives tier us t → t.ScopedIn scope →
      Ended p.stream.items → 8 * p.stream.ahead.length + 6 ≤ depth →
        Mirrors (extra = []) (ts ++ us) p (tail depth' (scope ++ extra) left)
          (tail depth scope left p)

/-- All rules and tails are mirrored at a depth. -/
structure AllMirror (depth : Nat) : Prop where
  term : RuleMirrors .term Parse.term depth
  sum : RuleMirrors .sum Parse.sum depth
  sumTail : TailMirrors .sum Parse.sumTail depth
  prod : RuleMirrors .prod Parse.prod depth
  prodTail : TailMirrors .prod Parse.prodTail depth
  unary : RuleMirrors .unary Parse.unary depth
  app : RuleMirrors .app Parse.app depth
  appTail : TailMirrors .app Parse.appTail depth
  atom : RuleMirrors .atom Parse.atom depth

variable {depth : Nat}

/-- No rule is called at depth zero. -/
theorem ruleMirrors_zero {tier : Tier} {rule : Nat → Scope → Parse Term} :
    RuleMirrors tier rule 0 := by
  intro depth' scope extra ts p _ _ _ hlong
  have hle : tier.rank ≤ 5 := tier.rank_le_atom
  omega

theorem tailMirrors_zero {tier : Tier} {tail : Nat → Scope → Term → Parse Term} :
    TailMirrors tier tail 0 := by
  intro depth' scope extra ts us t left p _ _ _ _ _ hlong
  omega

/-- A depth that is not less than a successor is a successor as well. -/
theorem ruleMirrors_of_succ {tier : Tier} {rule : Nat → Scope → Parse Term}
    (h : ∀ ⦃depth' scope extra ts p⦄, depth ≤ depth' → Place ts scope tier → Ended p.stream.items →
      8 * p.stream.ahead.length + 6 ≤ depth + 1 + tier.rank →
        Mirrors (extra = []) ts p (rule (depth' + 1) (scope ++ extra)) (rule (depth + 1) scope p)) :
    RuleMirrors tier rule (depth + 1) := by
  intro depth' scope extra ts p hdepth hplace hended hlong
  obtain ⟨d, rfl⟩ := Nat.exists_eq_add_one.mpr (Nat.zero_lt_of_lt hdepth)
  exact h (Nat.le_of_succ_le_succ hdepth) hplace hended hlong

theorem mirrors_term (ih : AllMirror depth) : RuleMirrors .term term (depth + 1) := by
  apply ruleMirrors_of_succ
  intro depth' scope extra ts p hdepth hplace hended hlong
  simp only [Tier.rank] at hlong
  by_cases hstart : p.stream.current.token.kind ∈ termStart
  · obtain hlet | hlambda | hunary := termStart_cases hstart
    · rw [term_of_letWord hlet]
      refine Mirrors.congr ?_ fun p' hp' => term_of_letWord (hp'.trans hlet)
      refine .next_bind hended hlet rfl fun s₁ hs₁ hlen₁ => ?_
      refine .name_bind hs₁ hplace.awaits_letName fun x s₂ hs₂ hlen₂ => ?_
      refine .newId_bind hs₂ ?_
      refine .expect_bind hs₂ (hplace.awaits_letEquals x) fun s₃ hs₃ hlen₃ => ?_
      have hlong₃ : 8 * s₃.ahead.length + 6 ≤ depth := by
        dsimp only at hlen₂ hlen₃
        omega
      refine .rule_bind hs₃ (ih.term hdepth (hplace.letValue x) hs₃ hlong₃) (sound depth).term
        fun v q vs t hvs hvscope hq hlen₄ => ?_
      refine .expect_bind hq (hplace.awaits_letIn x hvs hvscope) fun s₄ hs₄ hlen₅ => ?_
      have hlong₄ : 8 * s₄.ahead.length + 6 ≤ depth := by
        dsimp only at hlen₄
        omega
      exact .rule_bind hs₄ (ih.term hdepth (hplace.letBody x _ hvs hvscope) hs₄ hlong₄)
        (sound depth).term fun _ _ _ _ _ _ _ _ => .returned _
    · rw [term_of_lambda hlambda]
      refine Mirrors.congr ?_ fun p' hp' => term_of_lambda (hp'.trans hlambda)
      refine .next_bind hended hlambda rfl fun s₁ hs₁ hlen₁ => ?_
      refine .name_bind hs₁ hplace.awaits_lamName fun x s₂ hs₂ hlen₂ => ?_
      refine .newId_bind hs₂ ?_
      refine .expect_bind hs₂ (hplace.awaits_lamArrow x) fun s₃ hs₃ hlen₃ => ?_
      have hlong₃ : 8 * s₃.ahead.length + 6 ≤ depth := by
        dsimp only at hlen₂ hlen₃
        omega
      exact .rule_bind hs₃ (ih.term hdepth (hplace.lamBody x _) hs₃ hlong₃) (sound depth).term
        fun _ _ _ _ _ _ _ _ => .returned _
    · rw [term_of_unaryStart hunary]
      refine (ih.sum hdepth hplace.sum hended hlong).congr fun p' hp' => term_of_unaryStart ?_
      rwa [hp']
  · rw [term_of_not_termStart hstart]
    refine (Mirrors.refused hplace.awaits_starts).congr fun p' hp' => term_of_not_termStart ?_
    rwa [hp']

/-- The rule of a tier with a loop reads a part of the next tighter tier, and then its tail. -/
theorem mirrors_head {tier : Tier} {rule inner : Nat → Scope → Parse Term}
    {tail : Nat → Scope → Term → Parse Term} (hrank : tier.tighter.rank = tier.rank + 1)
    (hrule : ∀ {depth scope}, rule (depth + 1) scope = inner depth scope >>= tail depth scope)
    (hplace : ∀ {ts scope}, Place ts scope tier → Place ts scope tier.tighter)
    (hinner : RuleMirrors tier.tighter inner depth) (htail : TailMirrors tier tail depth)
    (hreads : ∀ {scope p u q}, inner depth scope p = .ok u q → Reads tier.tighter scope p u q) :
    RuleMirrors tier rule (depth + 1) := by
  apply ruleMirrors_of_succ
  intro depth' scope extra ts p hdepth htier hended hlong
  have hle : tier.rank ≤ 5 := tier.rank_le_atom
  rw [hrule, hrule]
  refine .rule_bind hended (hinner hdepth (hplace htier) hended ?_) hreads
    fun left q us t hus hscope hq hlen => ?_
  · omega
  · have hpos := hus.length_pos
    exact htail hdepth htier hus.widen hscope hq (by omega)

/-- In the tail of a sum or a product, an operator is a further turn of the loop, and every other
token ends it. -/
theorem mirrors_loop {tier : Tier} {op? : Token → Option Op} {inner : Nat → Scope → Parse Term}
    {tail : Nat → Scope → Term → Parse Term}
    (hop? : ∀ {token op}, op? token = some op ↔ token = .mark op.mark ∧ op.tier = tier)
    (hturn : ∀ {depth scope left op p}, op? p.stream.current.token = some op →
      tail (depth + 1) scope left p = (do
        discard next
        let right ← inner depth scope
        tail depth scope (.arith op left right) : Parse Term) p)
    (hend : ∀ {depth scope left p}, op? p.stream.current.token = none →
      tail (depth + 1) scope left p = .ok left p)
    (hplace : ∀ {ts us scope t} {op : Op}, Place ts scope tier → Derives tier us t →
      t.ScopedIn scope → op.tier = tier → Place (ts ++ us ++ [.mark op.mark]) scope tier.tighter)
    (hjoin : ∀ {us vs t u} {op : Op}, op.tier = tier → Derives tier us t →
      Derives tier.tighter vs u → Derives tier (us ++ .mark op.mark :: vs) (.arith op t u))
    (hinner : RuleMirrors tier.tighter inner depth) (htail : TailMirrors tier tail depth)
    (hreads : ∀ {scope p u q}, inner depth scope p = .ok u q → Reads tier.tighter scope p u q) :
    TailMirrors tier tail (depth + 1) := by
  intro depth' scope extra ts us t left p hdepth htier hus hscope hended hlong
  obtain ⟨d, rfl⟩ := Nat.exists_eq_add_one.mpr (Nat.zero_lt_of_lt hdepth)
  replace hdepth := Nat.le_of_succ_le_succ hdepth
  cases hop : op? p.stream.current.token with
  | some op =>
      obtain ⟨htoken, hoptier⟩ := hop?.mp hop
      rw [hturn hop]
      refine Mirrors.congr ?_ fun p' hp' => hturn (hp'.symm ▸ hop)
      refine .next_bind hended htoken rfl fun s₁ hs₁ hlen₁ => ?_
      have hlong₁ : 8 * s₁.ahead.length + 6 ≤ depth + tier.tighter.rank := by
        omega
      refine .rule_bind hs₁ (hinner hdepth (hplace htier hus hscope hoptier) hs₁ hlong₁) hreads
        fun right q vs u hvs huscope hq hlen₂ => ?_
      have hassoc : ts ++ us ++ [.mark op.mark] ++ vs = ts ++ (us ++ .mark op.mark :: vs) := by
        simp
      rw [hassoc]
      refine htail hdepth htier (hjoin hoptier hus hvs)
        (Term.scopedIn_arith_iff.mpr ⟨hscope, huscope⟩) hq ?_
      dsimp only at hlen₂
      omega
  | none =>
      rw [hend hop]
      exact (Mirrors.returned left).congr fun p' hp' => hend (hp'.symm ▸ hop)

theorem mirrors_unary (ih : AllMirror depth) : RuleMirrors .unary unary (depth + 1) := by
  apply ruleMirrors_of_succ
  intro depth' scope extra ts p hdepth hplace hended hlong
  rw [Tier.rank] at hlong
  by_cases hstart : p.stream.current.token.kind ∈ unaryStart
  · obtain hminus | hatom := unaryStart_cases hstart
    · rw [unary_of_minus hminus]
      refine Mirrors.congr ?_ fun p' hp' => unary_of_minus (hp'.trans hminus)
      refine .next_bind hended hminus rfl fun s₁ hs₁ hlen₁ => ?_
      have hlong₁ : 8 * s₁.ahead.length + 6 ≤ depth + Tier.unary.rank := by
        rw [Tier.rank]
        omega
      exact .rule_bind hs₁ (ih.unary hdepth hplace.operand hs₁ hlong₁) (sound depth).unary
        fun _ _ _ _ _ _ _ _ => .returned _
    · rw [unary_of_atomStart hatom]
      refine (ih.app hdepth hplace.app hended ?_).congr fun p' hp' => unary_of_atomStart ?_
      · rw [Tier.rank]
        omega
      · rwa [hp']
  · rw [unary_of_not_unaryStart hstart]
    refine (Mirrors.refused hplace.awaits_starts).congr fun p' hp' => unary_of_not_unaryStart ?_
    rwa [hp']

theorem mirrors_appTail (ih : AllMirror depth) : TailMirrors .app appTail (depth + 1) := by
  intro depth' scope extra ts us t fn p hdepth hplace hus hscope hended hlong
  obtain ⟨d, rfl⟩ := Nat.exists_eq_add_one.mpr (Nat.zero_lt_of_lt hdepth)
  replace hdepth := Nat.le_of_succ_le_succ hdepth
  by_cases hatom : p.stream.current.token.kind ∈ atomStart
  · rw [appTail_of_atomStart hatom]
    refine Mirrors.congr ?_ fun p' hp' => appTail_of_atomStart (hp'.symm ▸ hatom)
    refine .rule_bind hended (ih.atom hdepth (hplace.argument hus hscope) hended ?_)
      (sound depth).atom fun arg q vs u hvs huscope hq hlen => ?_
    · rw [Tier.rank]
      omega
    · have hpos := hvs.length_pos
      rw [List.append_assoc]
      exact ih.appTail hdepth hplace (.app hus hvs)
        (Term.scopedIn_app_iff.mpr ⟨hscope, huscope⟩) hq (by omega)
  · rw [appTail_of_not_atomStart hatom]
    exact (Mirrors.returned fn).congr fun p' hp' => appTail_of_not_atomStart (hp'.symm ▸ hatom)

theorem exists_bind_throw {α β : Type} (act : Parse α) (e : ParseFault) (p : ParseState) :
    ∃ e' q', (act >>= fun _ => throw e : Parse β) p = .error e' q' := by
  cases h : act p with
  | ok a q => exact ⟨e, q, bind_of_ok h⟩
  | error e' q => exact ⟨e', q, bind_of_error h⟩

theorem mirrors_atom (ih : AllMirror depth) : RuleMirrors .atom atom (depth + 1) := by
  apply ruleMirrors_of_succ
  intro depth' scope extra ts p hdepth hplace hended hlong
  rw [Tier.rank] at hlong
  by_cases hstart : p.stream.current.token.kind ∈ atomStart
  · obtain ⟨x, hvar⟩ | ⟨c, hconstr⟩ | ⟨n, hliteral⟩ | hopening := atomStart_cases hstart
    · cases hid : scope.lookup x with
      | some id =>
          have hextended : (scope ++ extra).lookup x = some id := by
            rw [List.lookup_append, hid]
            rfl
          rw [atom_of_bound hvar hid]
          refine Mirrors.congr ?_ fun p' hp' => atom_of_bound (hp'.trans hvar) hextended
          exact .next_bind hended hvar rfl fun _ _ _ => .returned _
      | none =>
          rw [atom_of_unbound hvar hid]
          obtain ⟨s', htakes⟩ | ⟨digits, stop, s', hnext, hmet⟩ :=
            Stream.takes_or_tooLong hended hvar rfl
          · rw [bind_of_ok (discard_next_run htakes)]
            refine .error_here (.freeVariable hvar hplace hid) ?_
            -- In the same scope the variable is free there as well.
            intro hsame p' hp'
            obtain rfl := hsame ⟨_, _, _, rfl⟩
            rw [List.append_nil, atom_of_unbound (hp'.trans hvar) hid]
            exact exists_bind_throw _ _ p'
          · rw [bind_of_error (discard_next_error hnext)]
            exact .tooLong hmet
    · rw [atom_of_constr hconstr]
      refine Mirrors.congr ?_ fun p' hp' => atom_of_constr (hp'.trans hconstr)
      exact .next_bind hended hconstr rfl fun _ _ _ => .returned _
    · rw [atom_of_literal hliteral]
      refine Mirrors.congr ?_ fun p' hp' => atom_of_literal (hp'.trans hliteral)
      exact .next_bind hended hliteral rfl fun _ _ _ => .returned _
    · rw [atom_of_opening hopening]
      refine Mirrors.congr ?_ fun p' hp' => atom_of_opening (hp'.trans hopening)
      refine .next_bind hended hopening rfl fun s₁ hs₁ hlen₁ => ?_
      have hlong₁ : 8 * s₁.ahead.length + 6 ≤ depth := by
        omega
      refine .rule_bind hs₁ (ih.term hdepth hplace.inner hs₁ hlong₁) (sound depth).term
        fun inner q us t hus hscope hq hlen₂ => ?_
      exact .expect_bind hq (hplace.awaits_closing hus hscope) fun _ _ _ => .returned _
  · rw [atom_of_not_atomStart hstart]
    refine (Mirrors.refused hplace.awaits_starts).congr fun p' hp' => atom_of_not_atomStart ?_
    rwa [hp']

/-- At every depth, all rules and tails are mirrored. -/
theorem allMirror (depth : Nat) : AllMirror depth := by
  induction depth with
  | zero =>
      exact
        { term := ruleMirrors_zero
          sum := ruleMirrors_zero
          sumTail := tailMirrors_zero
          prod := ruleMirrors_zero
          prodTail := tailMirrors_zero
          unary := ruleMirrors_zero
          app := ruleMirrors_zero
          appTail := tailMirrors_zero
          atom := ruleMirrors_zero }
  | succ depth ih =>
      exact
        { term := mirrors_term ih
          sum := mirrors_head rfl sum_eq .prod ih.prod ih.sumTail (sound depth).prod
          sumTail := mirrors_loop sumOp?_eq_some_iff sumTail_of_op sumTail_of_none .addend
            .sum ih.prod ih.sumTail (sound depth).prod
          prod := mirrors_head rfl prod_eq .unary ih.unary ih.prodTail (sound depth).unary
          prodTail := mirrors_loop prodOp?_eq_some_iff prodTail_of_op prodTail_of_none .factor
            .prod ih.unary ih.prodTail (sound depth).unary
          unary := mirrors_unary ih
          app := mirrors_head rfl app_eq .atom ih.atom ih.appTail (sound depth).atom
          appTail := mirrors_appTail ih
          atom := mirrors_atom ih }

/-- Takes a term for the whole when the end of the text stands behind it. -/
def finished (t : Term) : Parse Term := do
  if (← peek).token = .finish then return t else fail [.finish]

variable {s : Stream} {p q : ParseState} {e : ParseFault}

theorem finished_of_finish {t : Term} (h : p.stream.current.token = .finish) :
    finished t p = .ok t p := by
  rw [finished, peek_bind_run, if_pos h]
  rfl

theorem finished_of_other {t : Term} (h : p.stream.current.token ≠ .finish) :
    finished t p = fail [.finish] p := by
  rw [finished, peek_bind_run, if_neg h]

theorem whole_eq (p : ParseState) :
    whole p = (term (depthBound p.stream) [] >>= finished) p := by
  have hbounded : bounded term [] p = term (depthBound p.stream) [] p := rfl
  rw [whole]
  cases hterm : term (depthBound p.stream) [] p with
  | error e q => rw [bind_of_error hterm, bind_of_error (hbounded.trans hterm)]
  | ok t q =>
      rw [bind_of_ok hterm, bind_of_ok (hbounded.trans hterm), finished, peek_bind_run,
        peek_bind_run]
      cases htoken : q.stream.current.token <;> rfl

theorem mirrors_finished {same : Prop} {ts : List Token} {t u : Term}
    (hderives : Derives .term ts u) (hclosed : u.ScopedIn []) :
    Mirrors same ts p (finished t) (finished t p) := by
  by_cases hfinish : p.stream.current.token = .finish
  · rw [finished_of_finish hfinish]
    exact (Mirrors.returned t).congr fun p' hp' => finished_of_finish (hp'.trans hfinish)
  · rw [finished_of_other hfinish]
    refine (Mirrors.refused (awaits_finish hderives hclosed)).congr fun p' hp' => ?_
    exact finished_of_other (hp'.symm ▸ hfinish)

/-- A whole reading is mirrored at every greater depth, in every scope. -/
theorem mirrors_whole {depth : Nat} (hended : Ended s.items) (hdepth : depthBound s ≤ depth)
    (extra : Scope) :
    Mirrors (extra = []) [] ⟨s, 0⟩ (term depth extra >>= finished) (whole ⟨s, 0⟩) := by
  have hlong : 8 * s.ahead.length + 6 ≤ depthBound s := by
    rw [depthBound]
    omega
  rw [whole_eq]
  exact .rule_bind hended ((allMirror _).term hdepth .start hended hlong) (sound _).term
    fun t q us u hus hscope hq _ => mirrors_finished hus hscope

end Parse

end Contractum
