import Mathlib.Data.List.Count
import Contractum.Proofs.Spelling.LexicalSteps
import Contractum.Proofs.Spelling.Limits
import Contractum.Proofs.Spelling.RoundTrip
import Contractum.Proofs.Spelling.Words

/-!
# As few parentheses as the grammar permits

All token lists of a tree agree without their parentheses, since these are the only tokens that
the grammar lets stand or fall. Every subterm whose tier is looser than its place needs a pair,
and the source form has these pairs and no others. So no text of a term has fewer parentheses
than its source form.
-/

namespace Contractum

open Text

/-- Whether a token is one of the two parentheses. -/
def Token.isParenthesis : Token → Bool
  | .mark .opening | .mark .closing => true
  | _ => false

/-- What remains of a list of tokens when all parentheses are deleted. -/
def bare (ts : List Token) : List Token :=
  ts.filter fun token => !token.isParenthesis

/-- The pairs of parentheses, one or none, that a text of a tier needs at a place. -/
def Tier.pairsAt (place tier : Tier) : Nat :=
  if place.rank ≤ tier.rank then 0 else 1

namespace Term

/-- The tokens of a tree, parentheses apart. -/
@[simp] def bareTokens : Term → List Token
  | var x _ => [.var x]
  | constr c => [.constr c]
  | lit n => [.literal n.toNat]
  | lam x body _ => .mark .lambda :: .var x :: .mark .arrow :: body.bareTokens
  | letIn x value body _ =>
    .mark .letWord :: .var x :: .mark .equals ::
      (value.bareTokens ++ .mark .inWord :: body.bareTokens)
  | app fn arg => fn.bareTokens ++ arg.bareTokens
  | arith op left right => left.bareTokens ++ .mark op.mark :: right.bareTokens
  | neg operand => .mark .minus :: operand.bareTokens

/-- The pairs of parentheses in the source form. -/
@[simp] def pairs : Term → Nat
  | var _ _ | constr _ => 0
  | lit value => if value < 0 then 1 else 0
  | lam _ body _ => body.pairs
  | letIn _ value body _ => value.pairs + body.pairs
  | app fn arg => fn.pairs + Tier.pairsAt .app fn.tier + (arg.pairs + Tier.pairsAt .atom arg.tier)
  | arith op left right =>
    left.pairs + Tier.pairsAt op.tier left.tier +
      (right.pairs + Tier.pairsAt op.tier.tighter right.tier)
  | neg operand => operand.pairs + Tier.pairsAt .unary operand.tier

end Term

section Grammar

variable {tier place : Tier} {token : Token} {ts : List Token} {t : Term}

theorem bare_append (ts us : List Token) : bare (ts ++ us) = bare ts ++ bare us :=
  List.filter_append ts us

theorem bare_cons (h : token.isParenthesis = false) (ts : List Token) :
    bare (token :: ts) = token :: bare ts :=
  List.filter_cons_of_pos (by rw [h]; rfl)

theorem bare_parens (ts : List Token) :
    bare (.mark .opening :: (ts ++ [.mark .closing])) = bare ts := by
  change bare (ts ++ [.mark .closing]) = bare ts
  rw [bare_append]
  exact List.append_nil _

theorem Op.isParenthesis_mark (op : Op) : (Token.mark op.mark).isParenthesis = false := by
  cases op <;> rfl

/-- Without its parentheses a list of tokens is determined by its tree. -/
theorem Derives.bare_eq (h : Derives tier ts t) : bare ts = t.bareTokens := by
  induction h with
  | letIn _ _ ihv ihb =>
      rw [bare_cons rfl, bare_cons rfl, bare_cons rfl, bare_append, bare_cons rfl, ihv, ihb,
        Term.bareTokens]
  | lam _ ih => rw [bare_cons rfl, bare_cons rfl, bare_cons rfl, ih, Term.bareTokens]
  | sum _ _ _ ihl ihr | prod _ _ _ ihl ihr =>
      rw [bare_append, bare_cons (Op.isParenthesis_mark _), ihl, ihr, Term.bareTokens]
  | neg _ ih => rw [bare_cons rfl, ih, Term.bareTokens]
  | app _ _ ihf iha => rw [bare_append, ihf, iha, Term.bareTokens]
  | var | constr | literal => rfl
  | parens _ ih => rw [bare_parens, ih]
  | ofSum _ ih | ofProd _ ih | ofUnary _ ih | ofApp _ ih | ofAtom _ ih => exact ih

theorem Tier.pairsAt_le_one (place tier : Tier) : pairsAt place tier ≤ 1 := by
  rw [pairsAt]
  split <;> decide

@[simp] theorem Tier.pairsAt_self (tier : Tier) : pairsAt tier tier = 0 :=
  if_pos (Nat.le_refl _)

@[simp] theorem Tier.pairsAt_term (tier : Tier) : pairsAt .term tier = 0 :=
  if_pos (Nat.zero_le _)

/-- A looser place needs no more parentheses. -/
theorem Tier.pairsAt_le_tighter (place tier : Tier) :
    pairsAt place tier ≤ pairsAt place.tighter tier := by
  cases place <;> cases tier <;> decide

theorem count_opening_cons (h : token.isParenthesis = false) (ts : List Token) :
    (token :: ts).count (.mark .opening) = ts.count (.mark .opening) := by
  apply List.count_cons_of_ne
  rintro rfl
  cases h

theorem count_opening_parens (ts : List Token) :
    (.mark .opening :: (ts ++ [.mark .closing])).count (.mark .opening) =
      ts.count (.mark .opening) + 1 := by
  rw [List.count_cons_self, List.count_append]
  rfl

/-- Whatever stands for a tree at a place has the pairs of parentheses of its source form, and the
pair around it if the place needs one. -/
theorem Derives.pairs_le (h : Derives place ts t) :
    t.pairs + Tier.pairsAt place t.tier ≤ ts.count (.mark .opening) := by
  induction h with
  | letIn _ _ ihv ihb =>
      rw [Tier.pairsAt_term, Nat.add_zero] at ihv ihb
      rw [count_opening_cons rfl, count_opening_cons rfl, count_opening_cons rfl, List.count_append,
        count_opening_cons rfl, Term.pairs, Tier.pairsAt_term, Nat.add_zero]
      exact Nat.add_le_add ihv ihb
  | lam _ ih =>
      rw [count_opening_cons rfl, count_opening_cons rfl, count_opening_cons rfl]
      exact ih
  | sum htier _ _ ihl ihr | prod htier _ _ ihl ihr =>
      rw [List.count_append, count_opening_cons (Op.isParenthesis_mark _), Term.pairs, Term.tier,
        htier, Tier.pairsAt_self, Nat.add_zero]
      exact Nat.add_le_add ihl ihr
  | neg _ ih =>
      rw [count_opening_cons rfl]
      exact ih
  | app _ _ ihf iha =>
      rw [List.count_append, Term.pairs, Term.tier, Tier.pairsAt_self, Nat.add_zero]
      exact Nat.add_le_add ihf iha
  | var | constr | literal => exact Nat.le_refl 0
  | @parens ts t _ ih =>
      rw [Tier.pairsAt_term] at ih
      rw [count_opening_parens]
      exact Nat.add_le_add ih (Tier.pairsAt_le_one .atom t.tier)
  | @ofSum _ t _ ih | @ofProd _ t _ ih | @ofUnary _ t _ ih | @ofApp _ t _ ih | @ofAtom _ t _ ih =>
      exact (Nat.add_le_add_left (Tier.pairsAt_le_tighter _ t.tier) _).trans ih

end Grammar

section Characters

variable {word cs : List Char} {c : Char} {rule : Rule} {token : Token} {lexeme : Lexeme}
variable {width : Nat} {x : String}

/-- Only symbols have a parenthesis in their words. -/
theorem Rule.Allows.opening_not_mem (h : rule.Allows word) (hrule : rule ≠ .symbol) :
    '(' ∉ word :=
  h.not_mem hrule rfl

/-- A word has an opening parenthesis in it exactly when it says one. -/
theorem Rule.Says.count_opening (h : rule.Says word token) (hallowed : rule.Allows word) :
    word.count '(' = [token].count (.mark .opening) := by
  cases h with
  | symbol m => cases m <;> rfl
  | @keyword m => cases m <;> rfl
  | literal | constr | var =>
      rw [List.count_eq_zero.mpr (hallowed.opening_not_mem nofun)]
      rfl

/-- The opening parentheses of a text are those of its first lexeme and those behind it. -/
theorem Lexeme.count_opening_of_read (h : Lexeme.read? c cs = some (lexeme, width)) :
    (c :: cs).count '(' =
      [lexeme].count (.token (.mark .opening)) + (cs.drop width).count '(' := by
  obtain ⟨rule, ds, t, hlongest, rfl, hsaid, htells⟩ := exists_longest_of_read h
  obtain ⟨-, rest, rfl⟩ := List.cons_prefix_cons.mp hlongest.front
  have hword : [t].count (.mark .opening) = [lexeme].count (.token (.mark .opening)) := by
    cases htells with
    | token => simp [List.count_singleton]
    | tooLong => rfl
  rw [List.drop_left, ← List.cons_append, List.count_append, hsaid.count_opening hlongest.allowed,
    hword]

theorem count_opening_dropWhile (cs : List Char) :
    (cs.dropWhile isGap).count '(' = cs.count '(' := by
  have hgaps : '(' ∉ cs.takeWhile isGap :=
    not_mem_of_forall rfl fun d hd => List.mem_takeWhile_imp hd
  calc (cs.dropWhile isGap).count '('
      = (cs.takeWhile isGap ++ cs.dropWhile isGap).count '(' := by
        rw [List.count_append, List.count_eq_zero.mpr hgaps, Nat.zero_add]
    _ = cs.count '(' := by rw [List.takeWhile_append_dropWhile]

/-- A text without unknown characters is read as one opening parenthesis for each in it. -/
theorem count_opening_lexemes (h : ∀ c, .token (.unknown c) ∉ lexemes cs) :
    (lexemes cs).count (.token (.mark .opening)) = cs.count '(' := by
  -- The induction follows the scan, whose places play no part here.
  have pos : Nat := 0
  induction pos, cs using scan.induct with
  | case1 pos cs hblank =>
      rw [← lexemes_dropWhile, ← count_opening_dropWhile, hblank, lexemes_nil]
      rfl
  | case2 pos cs c rest hcs hread =>
      have hgap : isGap c = false := stopped_dropWhile isGap cs c (by rw [hcs]; rfl)
      rw [← lexemes_dropWhile, hcs, lexemes_of_unknown hgap hread] at h
      exact absurd (List.mem_singleton_self _) (h c)
  | case3 pos cs start c rest hcs lexeme width hread stop ih =>
      have hgap : isGap c = false := stopped_dropWhile isGap cs c (by rw [hcs]; rfl)
      rw [← lexemes_dropWhile, hcs, lexemes_of_read hgap hread] at h ⊢
      have hrest : ∀ d, .token (.unknown d) ∉ lexemes (rest.drop width) :=
        fun d hd => h d (List.mem_cons_of_mem _ hd)
      rw [← count_opening_dropWhile cs, hcs, Lexeme.count_opening_of_read hread, ← ih hrest,
        ← List.count_append, List.singleton_append]

/-- Spelled tokens have the opening parentheses of their text. -/
theorem Spells.count_opening {ts : List Token} (h : Spells cs ts)
    (hts : ∀ token ∈ ts, token.ends = false) : ts.count (.mark .opening) = cs.count '(' := by
  have hlexemes : lexemes cs = ts.map .token ++ [.token .finish] := by
    rw [← lexemes_nil, ← h [] breaks_nil, List.append_nil]
  have hknown : ∀ c, .token (.unknown c) ∉ lexemes cs := by
    intro c hmem
    rw [hlexemes, List.mem_append, List.mem_map] at hmem
    rcases hmem with ⟨token, htoken, heq⟩ | hlast
    · injection heq with heq
      have hends := hts token htoken
      rw [heq, Token.ends] at hends
      contradiction
    · exact absurd hlast (by simp)
  have hinjective : Function.Injective Lexeme.token := fun _ _ heq => Lexeme.token.inj heq
  rw [← count_opening_lexemes hknown, hlexemes, List.count_append,
    List.count_map_of_injective ts _ hinjective]
  rfl

end Characters

namespace Term

variable {x : String} {text : String} {t : Term} {tier place : Tier}

theorem opening_not_mem_of_isVariable (h : isVariable x = true) : '(' ∉ x.toList := by
  obtain ⟨c, cs, hname, hlower, htail, -⟩ := isVariable_iff.mp h
  obtain ⟨word, primes, rfl, hword, hprimes⟩ := varTail_eq_self_iff.mp htail
  have hallowed : Rule.name.Allows (c :: (word ++ primes)) := .name hlower hword hprimes
  rw [hname]
  exact hallowed.opening_not_mem nofun

theorem opening_not_mem_of_isConstructor (h : isConstructor x = true) : '(' ∉ x.toList := by
  obtain ⟨c, cs, hname, hupper, hword⟩ := isConstructor_iff.mp h
  have hallowed : Rule.constr.Allows (c :: cs) := .constr hupper hword
  rw [hname]
  exact hallowed.opening_not_mem nofun

theorem opening_not_mem_naturalText (n : Nat) : '(' ∉ (naturalText n).toList := by
  rw [naturalText, String.toList_ofList]
  exact not_mem_of_forall rfl fun _ hd => isDigit_of_mem_toDigits hd

theorem count_opening_enclose (place tier : Tier) (text : String) :
    (enclose place tier text).toList.count '(' =
      text.toList.count '(' + Tier.pairsAt place tier := by
  rw [enclose, Tier.pairsAt]
  split
  · rfl
  · simp

/-- The source form has its pairs of parentheses and no others. -/
theorem count_opening_render (h : t.isLexical = true) :
    t.render.toList.count '(' = t.pairs := by
  induction t with
  | var x id => exact List.count_eq_zero.mpr (opening_not_mem_of_isVariable h)
  | constr c => exact List.count_eq_zero.mpr (opening_not_mem_of_isConstructor h)
  | lit value =>
      have hdigits (n : Nat) := List.count_eq_zero.mpr (opening_not_mem_naturalText n)
      cases value with
      | ofNat n =>
          have hnonneg : ¬ Int.ofNat n < 0 := Int.not_lt.mpr (Int.natCast_nonneg n)
          rw [render, pairs, if_neg hnonneg, if_neg hnonneg, integerText, hdigits]
      | negSucc n =>
          have hneg : Int.negSucc n < 0 := Int.negSucc_lt_zero n
          rw [render, pairs, if_pos hneg, if_pos hneg, integerText]
          simp [hdigits]
  | lam x body id ih =>
      obtain ⟨hx, hbody⟩ := isLexical_lam_iff.mp h
      simp [render, List.count_eq_zero.mpr (opening_not_mem_of_isVariable hx), ih hbody]
  | letIn x value body id ihv ihb =>
      obtain ⟨hx, hvalue, hbody⟩ := isLexical_letIn_iff.mp h
      simp [render, List.count_eq_zero.mpr (opening_not_mem_of_isVariable hx), ihv hvalue,
        ihb hbody]
  | app fn arg ihf iha =>
      obtain ⟨hfn, harg⟩ := isLexical_app_iff.mp h
      simp [render, count_opening_enclose, ihf hfn, iha harg]
  | arith op left right ihl ihr =>
      obtain ⟨hleft, hright⟩ := isLexical_arith_iff.mp h
      cases op <;> simp [render, count_opening_enclose, ihl hleft, ihr hright, Op.symbol]
  | neg operand ih => simp [render, count_opening_enclose, ih h]

theorem tier_eraseIds (t : Term) : t.eraseIds.tier = t.tier := by
  cases t <;> rfl

theorem pairs_eraseIds (t : Term) : t.eraseIds.pairs = t.pairs := by
  induction t with
  | var | constr | lit => rfl
  | lam x body id ih => rw [eraseIds, pairs, pairs, ih]
  | letIn x value body id ihv ihb => rw [eraseIds, pairs, pairs, ihv, ihb]
  | app fn arg ihf iha => rw [eraseIds, pairs, pairs, ihf, iha, tier_eraseIds, tier_eraseIds]
  | arith op left right ihl ihr =>
      rw [eraseIds, pairs, pairs, ihl, ihr, tier_eraseIds, tier_eraseIds]
  | neg operand ih => rw [eraseIds, pairs, pairs, ih, tier_eraseIds]

theorem unsigned_eraseIds (t : Term) : t.eraseIds.unsigned = t.unsigned.eraseIds := by
  induction t with
  | var | constr => rfl
  | lit value => cases value <;> rfl
  | lam x body id ih => rw [eraseIds, unsigned, unsigned, eraseIds, ih]
  | letIn x value body id ihv ihb => rw [eraseIds, unsigned, unsigned, eraseIds, ihv, ihb]
  | app fn arg ihf iha => rw [eraseIds, unsigned, unsigned, eraseIds, ihf, iha]
  | arith op left right ihl ihr => rw [eraseIds, unsigned, unsigned, eraseIds, ihl, ihr]
  | neg operand ih => rw [eraseIds, unsigned, unsigned, eraseIds, ih]

end Term

/-- Trees have no negative literals. -/
theorem Derives.unsigned {tier : Tier} {ts : List Token} {t : Term} (h : Derives tier ts t) :
    t.unsigned = t := by
  induction h with
  | letIn _ _ ihv ihb => rw [Term.unsigned, ihv, ihb]
  | lam _ ih | neg _ ih => rw [Term.unsigned, ih]
  | sum _ _ _ ihl ihr | prod _ _ _ ihl ihr | app _ _ ihl ihr => rw [Term.unsigned, ihl, ihr]
  | var | constr | literal => rfl
  | ofSum _ ih | ofProd _ ih | ofUnary _ ih | ofApp _ ih | ofAtom _ ih | parens _ ih => exact ih

/-- The source form of a parsed term is a text of the term, and as close to any other text of it as
parentheses allow: without them both have the same tokens, and the source form has no more of
them than the text. -/
theorem Term.render_fewest_parentheses (text : String) (t : Term) (h : Term.parse text = .ok t) :
    ∃ source printed : List Located, Token.ofText text = .ok source ∧
      t.written? render = some t.render ∧ Token.ofText t.render = .ok printed ∧
      Term.parse t.render = .ok t ∧
      bare (printed.map (·.token)) = bare (source.map (·.token)) ∧
      (printed.map (·.token)).count (.mark .opening) ≤
        (source.map (·.token)).count (.mark .opening) := by
  have hlexical := isLexical_of_parse h
  have hwritable := isWritable_of_parse h
  obtain ⟨source, ts, u, hsource, htokens, hderives, hclosed, rfl⟩ := parse_eq_ok_iff.mp h
  have hwrites := writes_render hlexical hwritable
  have htree : u.numbered.unsigned.eraseIds = u := by
    rw [← unsigned_eraseIds, numbered, eraseIds_numberFrom, hderives.eraseIds, hderives.unsigned]
  rw [htree] at hwrites
  have hparse := hwrites.parse (scopedIn_nil_iff.mp hclosed)
  obtain ⟨us, hspells, hprinted⟩ := hwrites
  obtain ⟨printed, hrender, htokens'⟩ := hspells.exists_ofText
  have hpairs : us.count (.mark .opening) ≤ ts.count (.mark .opening) := calc
    us.count (.mark .opening)
      = u.numbered.render.toList.count '(' := hspells.count_opening hprinted.not_ends
    _ = u.numbered.pairs := count_opening_render hlexical
    _ = u.pairs := by rw [← pairs_eraseIds, numbered, eraseIds_numberFrom, hderives.eraseIds]
    _ ≤ ts.count (.mark .opening) := (Nat.le_add_right _ _).trans hderives.pairs_le
  refine ⟨source, printed, hsource, if_pos hwritable, hrender, hparse, ?_, ?_⟩
  · rw [htokens, htokens', bare_append, bare_append, hprinted.bare_eq, hderives.bare_eq]
  · rw [htokens, htokens', List.count_append, List.count_append]
    exact Nat.add_le_add_right hpairs _

/-- The term `1 - F (2 - 3) / 4`. -/
def Term.mixedDifference : Term :=
  .arith .sub (.lit 1)
    (.arith .div (.app (.constr "F") (.arith .sub (.lit 2) (.lit 3))) (.lit 4))

/-- A text of this term with four pairs of parentheses more than it needs. -/
theorem Term.render_fewest_parentheses_difference :
    Term.parse "((1)) - (F (2 - 3)) / (4)" = .ok mixedDifference ∧
      mixedDifference.render = "1 - F (2 - 3) / 4" ∧
      ∃ source printed : List Located,
        Token.ofText "((1)) - (F (2 - 3)) / (4)" = .ok source ∧
          Token.ofText "1 - F (2 - 3) / 4" = .ok printed ∧
          bare (printed.map (·.token)) = bare (source.map (·.token)) ∧
          (printed.map (·.token)).count (.mark .opening) ≤
            (source.map (·.token)).count (.mark .opening) := by
  have hparse : Term.parse "((1)) - (F (2 - 3)) / (4)" = .ok mixedDifference := by decide +kernel
  have hrender : mixedDifference.render = "1 - F (2 - 3) / 4" := by decide
  obtain ⟨source, printed, hsource, -, hprinted, -, hbare, hcount⟩ :=
    render_fewest_parentheses _ mixedDifference hparse
  rw [hrender] at hprinted
  exact ⟨hparse, hrender, source, printed, hsource, hprinted, hbare, hcount⟩

end Contractum
