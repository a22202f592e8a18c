import Contractum.Proofs.Grammar.Acceptance
import Contractum.Proofs.Spelling.Digits

/-!
# Reading what was written

The source form of a term spells tokens that its tier derives, so it is read back. A
negative literal is written behind a minus sign in parentheses and comes back as the
negation of its absolute value; everything else comes back as it was, with the binders
numbered anew.
-/

namespace Contractum

open Text

namespace Term

/-- The term with a negation in the place of every negative literal. -/
@[simp] def unsigned : Term → Term
  | var x id => var x id
  | constr c => constr c
  | lit (.ofNat n) => lit n
  | lit (.negSucc n) => neg (lit (n + 1))
  | lam x body id => lam x body.unsigned id
  | letIn x value body id => letIn x value.unsigned body.unsigned id
  | app fn arg => app fn.unsigned arg.unsigned
  | arith op left right => arith op left.unsigned right.unsigned
  | neg operand => neg operand.unsigned

theorem isFree_unsigned (x : String) (t : Term) : t.unsigned.isFree x = t.isFree x := by
  induction t with
  | var | constr => rfl
  | lit value => cases value <;> rfl
  | lam param body id ih => rw [unsigned, isFree, isFree, ih]
  | letIn name value body id ihv ihb => rw [unsigned, isFree, isFree, ihv, ihb]
  | app fn arg ihf iha => rw [unsigned, isFree, isFree, ihf, iha]
  | arith op left right ihl ihr => rw [unsigned, isFree, isFree, ihl, ihr]
  | neg operand ih => rw [unsigned, isFree, isFree, ih]

end Term

/-- A text writes a tree at a tier: it spells tokens that the tier derives. -/
def Writes (tier : Tier) (text : String) (t : Term) : Prop :=
  ∃ ts, Spells text.toList ts ∧ Derives tier ts t

variable {tier place : Tier} {text textL textR : String} {x : String} {t u : Term} {op : Op}

/-- A text stands for itself where its tier is tight enough, and in parentheses elsewhere. -/
theorem Writes.enclose (h : Writes tier text t) :
    Writes place (Term.enclose place tier text) t := by
  obtain ⟨ts, hspells, hderives⟩ := h
  rw [Term.enclose]
  split
  · next hrank => exact ⟨ts, hspells, hderives.loosen hrank⟩
  · refine ⟨.mark .opening :: (ts ++ [.mark .closing]), ?_, ?_⟩
    · have hparens := hspells.parens
      simpa using hparens
    · exact (Derives.parens hderives.loosest).loosen (by cases place <;> decide)

theorem Writes.loosest (h : Writes tier text t) : Writes .term text t := by
  obtain ⟨ts, hspells, hderives⟩ := h
  exact ⟨ts, hspells, hderives.loosest⟩

theorem writes_var (h : isVariable x = true) : Writes .atom x (.var x none) :=
  ⟨_, spells_variable h, .var x⟩

theorem writes_constr (h : isConstructor x = true) : Writes .atom x (.constr x) :=
  ⟨_, spells_constructor h, .constr x⟩

theorem Writes.lam (hx : isVariable x = true) (hbody : Writes .term text t) :
    Writes .term ("\\" ++ x ++ " -> " ++ text) (.lam x t none) := by
  obtain ⟨ts, hspells, hderives⟩ := hbody
  refine ⟨_, ?_, .lam hderives⟩
  have harrow := (spells_mark .arrow).append_gap hspells
  have hparam := ((spells_variable hx).append_gap harrow).cons_mark (c := '\\') rfl (by decide) rfl
  simpa [Mark.spelling] using hparam

theorem Writes.letIn (hx : isVariable x = true) (hvalue : Writes .term textL t)
    (hbody : Writes .term textR u) :
    Writes .term ("let " ++ x ++ " = " ++ textL ++ " in " ++ textR) (.letIn x t u none) := by
  obtain ⟨ts, hts, ht⟩ := hvalue
  obtain ⟨us, hus, hu⟩ := hbody
  refine ⟨_, ?_, .letIn ht hu⟩
  have hin := hts.append_gap ((spells_mark .inWord).append_gap hus)
  have hequals := (spells_mark .equals).append_gap hin
  have hlet := (spells_mark .letWord).append_gap ((spells_variable hx).append_gap hequals)
  simpa [Mark.spelling] using hlet

theorem Writes.app (hfn : Writes .app textL t) (harg : Writes .atom textR u) :
    Writes .app (textL ++ " " ++ textR) (.app t u) := by
  obtain ⟨ts, hts, ht⟩ := hfn
  obtain ⟨us, hus, hu⟩ := harg
  refine ⟨_, ?_, .app ht hu⟩
  have happ := hts.append_gap hus
  simpa using happ

theorem Op.spelling_mark (op : Op) : op.mark.spelling.toList = [op.symbol] := by
  cases op <;> rfl

/-- The operands of an operator are written at its tier on the left and at the next tighter one
on the right. -/
theorem Writes.arith (hleft : Writes op.tier textL t) (hright : Writes op.tier.tighter textR u) :
    Writes op.tier (textL ++ " " ++ String.singleton op.symbol ++ " " ++ textR)
      (.arith op t u) := by
  obtain ⟨ts, hts, ht⟩ := hleft
  obtain ⟨us, hus, hu⟩ := hright
  have hspells := hts.append_gap ((spells_mark op.mark).append_gap hus)
  rw [Op.spelling_mark] at hspells
  refine ⟨ts ++ .mark op.mark :: us, by simpa using hspells, ?_⟩
  cases htier : op.tier with
  | sum =>
      rw [htier] at ht hu
      exact .sum htier ht hu
  | prod =>
      rw [htier] at ht hu
      exact .prod htier ht hu
  | term | unary | app | atom => cases op <;> cases htier

theorem Writes.neg (hoperand : Writes .unary text t) : Writes .unary ("-" ++ text) (.neg t) := by
  obtain ⟨ts, hts, ht⟩ := hoperand
  obtain ⟨token, rest, rfl, -⟩ := ht.starts
  have hgreater : token ≠ .unknown '>' := by
    rintro rfl
    exact absurd (ht.not_ends _ List.mem_cons_self) (by decide)
  refine ⟨_, ?_, .neg ht⟩
  have hminus := hts.cons_minus hgreater
  simpa using hminus

theorem writes_naturalText {n : Nat} (h : n < digitBound) :
    Writes .atom (naturalText n) (.lit n) :=
  ⟨_, spells_naturalText h, .literal n⟩

theorem writes_lit {value : Int} (h : value.natAbs < digitBound) :
    Writes .atom (Term.lit value).render (Term.lit value).unsigned.eraseIds := by
  cases value with
  | ofNat n =>
      have hnonneg : ¬ Int.ofNat n < 0 := Int.not_lt.mpr (Int.natCast_nonneg n)
      rw [Term.render, if_neg hnonneg]
      exact writes_naturalText h
  | negSucc n =>
      rw [Term.render, if_pos (Int.negSucc_lt_zero n)]
      have habsolute : Writes .unary (naturalText (n + 1)) (.lit (n + 1 : Nat)) :=
        (writes_naturalText h).enclose
      have henclosed : Writes .atom ("(" ++ ("-" ++ naturalText (n + 1)) ++ ")") _ :=
        habsolute.neg.enclose
      exact henclosed

/-- The source form of a term writes its unsigned form at the tier of the term. -/
theorem Term.writes_render (hlexical : t.isLexical = true) (hwritable : t.isWritable = true) :
    Writes t.tier t.render t.unsigned.eraseIds := by
  induction t with
  | var x id => exact writes_var hlexical
  | constr c => exact writes_constr hlexical
  | lit value =>
      rw [isWritable, Text.isWritable, decide_eq_true_eq] at hwritable
      exact writes_lit hwritable
  | lam x body id ih =>
      obtain ⟨hx, hbody⟩ := isLexical_lam_iff.mp hlexical
      exact (ih hbody hwritable).loosest.lam hx
  | letIn x value body id ihv ihb =>
      obtain ⟨hx, hvalue, hbody⟩ := isLexical_letIn_iff.mp hlexical
      rw [isWritable, Bool.and_eq_true] at hwritable
      exact (ihv hvalue hwritable.1).loosest.letIn hx (ihb hbody hwritable.2).loosest
  | app fn arg ihf iha =>
      obtain ⟨hfn, harg⟩ := isLexical_app_iff.mp hlexical
      rw [isWritable, Bool.and_eq_true] at hwritable
      exact (ihf hfn hwritable.1).enclose.app (iha harg hwritable.2).enclose
  | arith op left right ihl ihr =>
      obtain ⟨hleft, hright⟩ := isLexical_arith_iff.mp hlexical
      rw [isWritable, Bool.and_eq_true] at hwritable
      exact (ihl hleft hwritable.1).enclose.arith (ihr hright hwritable.2).enclose
  | neg operand ih => exact (ih hlexical hwritable).enclose.neg

/-- A text that spells tokens has these tokens, and then its end. -/
theorem Spells.exists_ofText {ts : List Token} (h : Spells text.toList ts) :
    ∃ items, Token.ofText text = .ok items ∧ items.map (·.token) = ts ++ [.finish] := by
  have hlexemes := h [] breaks_nil
  rw [List.append_nil, lexemes_nil, ← List.map_singleton, ← List.map_append] at hlexemes
  obtain ⟨items, hscan, htokens⟩ := exists_located hlexemes
  exact ⟨items, Token.ofText_eq_ok_iff.mpr hscan, htokens⟩

/-- A text that writes a closed tree is parsed as that tree, numbered. -/
theorem Writes.parse (h : Writes tier text t) (hclosed : ∀ x, ¬ t.isFree x = true) :
    Term.parse text = .ok t.numbered := by
  obtain ⟨ts, hspells, hderives⟩ := h
  obtain ⟨items, htext, htokens⟩ := hspells.exists_ofText
  exact Term.parse_eq_ok_iff.mpr ⟨items, ts, t, htext, htokens, hderives.loosest,
    Term.scopedIn_nil_iff.mpr hclosed, rfl⟩

/-- Parsing undoes printing: a closed term with lexical names and literals within the limit is
written, and its source form is parsed as the term, with a negation for every negative literal,
with its binders numbered in pre-order and its variables by their binders. -/
theorem Term.parse_render (t : Term) (hclosed : ∀ x, ¬ t.isFree x = true)
    (hlexical : t.isLexical = true) (hwritable : t.isWritable = true) :
    t.written? render = some t.render ∧ Term.parse t.render = .ok t.unsigned.numbered := by
  refine ⟨if_pos hwritable, ?_⟩
  have hclosed' : ∀ x, ¬ t.unsigned.eraseIds.isFree x = true := by
    intro x hx
    rw [isFree_eraseIds, isFree_unsigned] at hx
    exact hclosed x hx
  have hparse := (writes_render hlexical hwritable).parse hclosed'
  rwa [numbered, numberFrom_eraseIds] at hparse

/-- A function with a negative literal and binding numbers of no order. -/
def Term.scattered : Term :=
  .lam "x" (.app (.var "x" (some 3)) (.arith .mul (.lit (-2)) (.neg (.var "x" none)))) (some 7)

theorem Term.parse_render_scattered :
    scattered.written? render = some "\\x -> x ((-2) * -x)" ∧
      Term.parse "\\x -> x ((-2) * -x)" = .ok (.lam "x" (.app (.var "x" (some 0))
        (.arith .mul (.neg (.lit 2)) (.neg (.var "x" (some 0))))) (some 0)) := by
  have hclosed : ∀ x, ¬ scattered.isFree x = true := by
    intro x hx
    simp [scattered, isFree] at hx
  have hrender : scattered.render = "\\x -> x ((-2) * -x)" := by decide
  have hparse := parse_render scattered hclosed (by decide) (by decide +kernel)
  rw [hrender] at hparse
  exact hparse

end Contractum
