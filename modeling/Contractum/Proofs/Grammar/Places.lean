import Contractum.Proofs.Grammar.Completeness

/-!
# Places in a term

Behind some tokens the grammar waits for a part of one of its tiers, inside the binders that
these tokens have opened. Such a place can always be completed: whatever the tier derives fits
there, and when it is in scope, the whole can be made a closed term.

What may stand next is said of token lists alone: those with which an accepted list begins, and
the kinds of tokens that the grammar allows behind them.
-/

namespace Contractum

open Parse

/-- The grammar waits for a part of a tier behind these tokens, with these binders around it.
The parts before it that are finished are in scope. -/
inductive Place : List Token → Scope → Tier → Prop
  | start : Place [] [] .term
  | letValue {ts : List Token} {scope : Scope} (x : String) (place : Place ts scope .term) :
      Place (ts ++ [.mark .letWord] ++ [.var x] ++ [.mark .equals]) scope .term
  | letBody {ts vs : List Token} {scope : Scope} {v : Term} (x : String) (id : Option Int)
      (place : Place ts scope .term) (value : Derives .term vs v) (inScope : v.ScopedIn scope) :
      Place (ts ++ [.mark .letWord] ++ [.var x] ++ [.mark .equals] ++ vs ++ [.mark .inWord])
        ((x, id) :: scope) .term
  | lamBody {ts : List Token} {scope : Scope} (x : String) (id : Option Int)
      (place : Place ts scope .term) :
      Place (ts ++ [.mark .lambda] ++ [.var x] ++ [.mark .arrow]) ((x, id) :: scope) .term
  | sum {ts : List Token} {scope : Scope} (place : Place ts scope .term) : Place ts scope .sum
  | addend {ts ls : List Token} {scope : Scope} {l : Term} {op : Op} (place : Place ts scope .sum)
      (left : Derives .sum ls l) (inScope : l.ScopedIn scope) (tier : op.tier = .sum) :
      Place (ts ++ ls ++ [.mark op.mark]) scope .prod
  | prod {ts : List Token} {scope : Scope} (place : Place ts scope .sum) : Place ts scope .prod
  | factor {ts ls : List Token} {scope : Scope} {l : Term} {op : Op} (place : Place ts scope .prod)
      (left : Derives .prod ls l) (inScope : l.ScopedIn scope) (tier : op.tier = .prod) :
      Place (ts ++ ls ++ [.mark op.mark]) scope .unary
  | unary {ts : List Token} {scope : Scope} (place : Place ts scope .prod) : Place ts scope .unary
  | operand {ts : List Token} {scope : Scope} (place : Place ts scope .unary) :
      Place (ts ++ [.mark .minus]) scope .unary
  | app {ts : List Token} {scope : Scope} (place : Place ts scope .unary) : Place ts scope .app
  | argument {ts fs : List Token} {scope : Scope} {f : Term} (place : Place ts scope .app)
      (fn : Derives .app fs f) (inScope : f.ScopedIn scope) : Place (ts ++ fs) scope .atom
  | atom {ts : List Token} {scope : Scope} (place : Place ts scope .app) : Place ts scope .atom
  | inner {ts : List Token} {scope : Scope} (place : Place ts scope .atom) :
      Place (ts ++ [.mark .opening]) scope .term

/-- The tokens of a closed term and the end of the text. -/
def Accepted (ts : List Token) : Prop :=
  ∃ body t, ts = body ++ [.finish] ∧ Derives .term body t ∧ t.ScopedIn []

/-- An accepted list begins with these tokens. -/
def Viable (ts : List Token) : Prop :=
  ∃ rest, Accepted (ts ++ rest)

/-- The grammar has a term that goes on behind these tokens with one of this kind, whatever its
free variables. -/
def Allows (ts : List Token) (kind : Kind) : Prop :=
  ∃ token rest body t, token.kind = kind ∧ ts ++ token :: rest = body ++ [.finish] ∧
    Derives .term body t

variable {tier : Tier} {scope : Scope} {ts us vs : List Token} {token : Token} {kind : Kind}
variable {t : Term}

theorem scopedIn_lit (n : Int) : (Term.lit n).ScopedIn scope :=
  fun _ h => absurd h Bool.false_ne_true

/-- Every tier derives a literal. -/
theorem derives_literal (tier : Tier) (n : Nat) : Derives tier [.literal n] (.lit n) :=
  (Derives.literal n).loosen (Tier.rank_le_atom tier)

/-- What a tier derives fits in a place of that tier, and in scope there it makes a closed
term. -/
theorem Place.completes (h : Place ts scope tier) (hderives : Derives tier us t) :
    ∃ rest u, Derives .term (ts ++ us ++ rest) u ∧ (t.ScopedIn scope → u.ScopedIn []) := by
  induction h generalizing us t with
  | start => exact ⟨[], t, by simpa using hderives, id⟩
  | @letValue ts scope x _ ih =>
      obtain ⟨rest, u, hu, hclosed⟩ := ih (.letIn (x := x) hderives (derives_literal .term 0))
      refine ⟨.mark .inWord :: .literal 0 :: rest, u, by simpa using hu, fun hscope => hclosed ?_⟩
      exact (Term.scopedIn_letIn_iff (i := none)).mpr ⟨hscope, scopedIn_lit 0⟩
  | @letBody ts vs scope v x id _ value inScope ih =>
      obtain ⟨rest, u, hu, hclosed⟩ := ih (.letIn (x := x) value hderives)
      refine ⟨rest, u, by simpa using hu, fun hscope => hclosed ?_⟩
      exact Term.scopedIn_letIn_iff.mpr ⟨inScope, hscope⟩
  | @lamBody ts scope x id _ ih =>
      obtain ⟨rest, u, hu, hclosed⟩ := ih (.lam (x := x) hderives)
      exact ⟨rest, u, by simpa using hu, fun hscope => hclosed (Term.scopedIn_lam_iff.mpr hscope)⟩
  | sum _ ih => exact ih (.ofSum hderives)
  | addend _ left inScope htier ih =>
      obtain ⟨rest, u, hu, hclosed⟩ := ih (.sum htier left hderives)
      refine ⟨rest, u, by simpa using hu, fun hscope => hclosed ?_⟩
      exact Term.scopedIn_arith_iff.mpr ⟨inScope, hscope⟩
  | factor _ left inScope htier ih =>
      obtain ⟨rest, u, hu, hclosed⟩ := ih (.prod htier left hderives)
      refine ⟨rest, u, by simpa using hu, fun hscope => hclosed ?_⟩
      exact Term.scopedIn_arith_iff.mpr ⟨inScope, hscope⟩
  | prod _ ih => exact ih (.ofProd hderives)
  | unary _ ih => exact ih (.ofUnary hderives)
  | operand _ ih =>
      obtain ⟨rest, u, hu, hclosed⟩ := ih (.neg hderives)
      exact ⟨rest, u, by simpa using hu, hclosed⟩
  | app _ ih => exact ih (.ofApp hderives)
  | argument _ fn inScope ih =>
      obtain ⟨rest, u, hu, hclosed⟩ := ih (.app fn hderives)
      refine ⟨rest, u, by simpa using hu, fun hscope => hclosed ?_⟩
      exact Term.scopedIn_app_iff.mpr ⟨inScope, hscope⟩
  | atom _ ih => exact ih (.ofAtom hderives)
  | inner _ ih =>
      obtain ⟨rest, u, hu, hclosed⟩ := ih (.parens hderives)
      exact ⟨.mark .closing :: rest, u, by simpa using hu, hclosed⟩

/-- A list that begins a part in scope at a place begins an accepted list. -/
theorem Place.viable (h : Place ts scope tier) (hderives : Derives tier (us ++ vs) t)
    (hscope : t.ScopedIn scope) : Viable (ts ++ us) := by
  obtain ⟨rest, u, hu, hclosed⟩ := h.completes hderives
  refine ⟨vs ++ rest ++ [.finish], _, u, ?_, hu, hclosed hscope⟩
  simp

/-- A token that goes on with a part at a place is allowed. -/
theorem Place.allows (h : Place ts scope tier) (hderives : Derives tier (us ++ token :: vs) t) :
    Allows (ts ++ us) token.kind := by
  obtain ⟨rest, u, hu, -⟩ := h.completes hderives
  refine ⟨token, vs ++ rest ++ [.finish], _, u, rfl, ?_, hu⟩
  simp

/-- These kinds, and at least one, are allowed behind a viable list. -/
structure Awaits (ts : List Token) (kinds : List Kind) : Prop where
  viable : Viable ts
  ne_nil : kinds ≠ []
  allows : ∀ kind ∈ kinds, Allows ts kind

theorem exists_derives_atom (h : kind ∈ atomStart) :
    ∃ token rest t, token.kind = kind ∧ Derives .atom (token :: rest) t := by
  simp only [atomStart, List.mem_cons, List.not_mem_nil, or_false] at h
  obtain rfl | rfl | rfl | rfl := h
  · exact ⟨.var "x", [], _, rfl, .var "x"⟩
  · exact ⟨.constr "C", [], _, rfl, .constr "C"⟩
  · exact ⟨.literal 0, [], _, rfl, .literal 0⟩
  · exact ⟨.mark .opening, _, _, rfl, .parens (derives_literal .term 0)⟩

theorem exists_derives_unary (h : kind ∈ unaryStart) :
    ∃ token rest t, token.kind = kind ∧ Derives .unary (token :: rest) t := by
  obtain hatom | hminus := List.mem_append.mp h
  · obtain ⟨token, rest, t, htoken, hderives⟩ := exists_derives_atom hatom
    exact ⟨token, rest, t, htoken, .ofApp (.ofAtom hderives)⟩
  · obtain rfl := List.mem_singleton.mp hminus
    exact ⟨.mark .minus, _, _, rfl, .neg (derives_literal .unary 0)⟩

theorem exists_derives_term (h : kind ∈ termStart) :
    ∃ token rest t, token.kind = kind ∧ Derives .term (token :: rest) t := by
  obtain hbinder | hunary := List.mem_append.mp h
  · simp only [List.mem_cons, List.not_mem_nil, or_false] at hbinder
    obtain rfl | rfl := hbinder
    · exact ⟨.mark .letWord, _, _, rfl,
        .letIn (x := "x") (derives_literal .term 0) (derives_literal .term 0)⟩
    · exact ⟨.mark .lambda, _, _, rfl, .lam (x := "x") (derives_literal .term 0)⟩
  · obtain ⟨token, rest, t, htoken, hderives⟩ := exists_derives_unary hunary
    exact ⟨token, rest, t, htoken, hderives.loosest⟩

/-- A part of a tier can begin with each of the kinds that the tier begins with. -/
theorem exists_derives_of_mem_starts (h : kind ∈ tier.starts) :
    ∃ token rest t, token.kind = kind ∧ Derives tier (token :: rest) t := by
  cases tier with
  | term => exact exists_derives_term h
  | sum | prod | unary =>
      obtain ⟨token, rest, t, htoken, hderives⟩ := exists_derives_unary h
      exact ⟨token, rest, t, htoken, hderives.loosen (by decide)⟩
  | app | atom =>
      obtain ⟨token, rest, t, htoken, hderives⟩ := exists_derives_atom h
      exact ⟨token, rest, t, htoken, hderives.loosen (by decide)⟩

theorem starts_ne_nil (tier : Tier) : tier.starts ≠ [] := by
  cases tier <;> exact List.cons_ne_nil _ _

/-- At a place of a tier, all kinds that the tier begins with are awaited. -/
theorem Place.awaits_starts (h : Place ts scope tier) : Awaits ts tier.starts where
  viable := by
    have hviable : Viable (ts ++ []) := h.viable (derives_literal tier 0) (scopedIn_lit 0)
    rwa [List.append_nil] at hviable
  ne_nil := starts_ne_nil tier
  allows := by
    intro kind hkind
    obtain ⟨token, rest, t, rfl, hderives⟩ := exists_derives_of_mem_starts hkind
    have hallows : Allows (ts ++ []) token.kind := h.allows hderives
    rwa [List.append_nil] at hallows

/-- In the middle of a part, the token that goes on with it is awaited. -/
theorem Place.awaits (h : Place ts scope tier) (hderives : Derives tier (us ++ token :: vs) t)
    (hscope : t.ScopedIn scope) : Awaits (ts ++ us) [token.kind] where
  viable := h.viable hderives hscope
  ne_nil := List.cons_ne_nil _ _
  allows := List.forall_mem_singleton.mpr (h.allows hderives)

theorem Place.awaits_letName (h : Place ts scope .term) :
    Awaits (ts ++ [Token.mark .letWord]) [.var] := by
  have hderives : Derives .term ([Token.mark .letWord] ++ .var "x" :: .mark .equals ::
      ([.literal 0] ++ .mark .inWord :: [.literal 0])) _ :=
    .letIn (derives_literal .term 0) (derives_literal .term 0)
  exact h.awaits hderives ((Term.scopedIn_letIn_iff (i := none)).mpr
    ⟨scopedIn_lit 0, scopedIn_lit 0⟩)

theorem Place.awaits_letEquals (h : Place ts scope .term) (x : String) :
    Awaits (ts ++ [Token.mark .letWord] ++ [Token.var x]) [.mark .equals] := by
  have hderives : Derives .term ([Token.mark .letWord, .var x] ++ .mark .equals ::
      ([.literal 0] ++ .mark .inWord :: [.literal 0])) _ :=
    .letIn (derives_literal .term 0) (derives_literal .term 0)
  have hawaits := h.awaits hderives ((Term.scopedIn_letIn_iff (i := none)).mpr
    ⟨scopedIn_lit 0, scopedIn_lit 0⟩)
  rwa [List.append_cons] at hawaits

theorem Place.awaits_letIn (h : Place ts scope .term) (x : String) (hvalue : Derives .term vs t)
    (hscope : t.ScopedIn scope) :
    Awaits (ts ++ [Token.mark .letWord] ++ [Token.var x] ++ [Token.mark .equals] ++ vs)
      [.mark .inWord] := by
  have hderives : Derives .term (Token.mark .letWord :: .var x :: .mark .equals :: vs ++
      .mark .inWord :: [.literal 0]) (.letIn x t (.lit (0 : Nat)) none) :=
    .letIn hvalue (derives_literal .term 0)
  have hawaits := h.awaits hderives ((Term.scopedIn_letIn_iff (i := none)).mpr
    ⟨hscope, scopedIn_lit 0⟩)
  simpa [Token.kind] using hawaits

theorem Place.awaits_lamName (h : Place ts scope .term) :
    Awaits (ts ++ [Token.mark .lambda]) [.var] := by
  have hderives : Derives .term
      ([Token.mark .lambda] ++ .var "x" :: .mark .arrow :: [.literal 0]) _ :=
    .lam (derives_literal .term 0)
  exact h.awaits hderives ((Term.scopedIn_lam_iff (i := none)).mpr (scopedIn_lit 0))

theorem Place.awaits_lamArrow (h : Place ts scope .term) (x : String) :
    Awaits (ts ++ [Token.mark .lambda] ++ [Token.var x]) [.mark .arrow] := by
  have hderives : Derives .term
      ([Token.mark .lambda, .var x] ++ .mark .arrow :: [.literal 0]) _ :=
    .lam (derives_literal .term 0)
  have hawaits := h.awaits hderives ((Term.scopedIn_lam_iff (i := none)).mpr (scopedIn_lit 0))
  rwa [List.append_cons] at hawaits

theorem Place.awaits_closing (h : Place ts scope .atom) (hinner : Derives .term vs t)
    (hscope : t.ScopedIn scope) : Awaits (ts ++ [Token.mark .opening] ++ vs) [.mark .closing] := by
  have hderives : Derives .atom (Token.mark .opening :: vs ++ .mark .closing :: []) t :=
    .parens hinner
  have hawaits := h.awaits hderives hscope
  rwa [List.append_cons] at hawaits

/-- Behind a closed term the end of the text is awaited. -/
theorem awaits_finish (hderives : Derives .term ts t) (hclosed : t.ScopedIn []) :
    Awaits ts [.finish] where
  viable := ⟨[.finish], ts, t, rfl, hderives, hclosed⟩
  ne_nil := List.cons_ne_nil _ _
  allows := List.forall_mem_singleton.mpr ⟨.finish, [], ts, t, rfl, rfl, hderives⟩

end Contractum
