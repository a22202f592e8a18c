import Contractum.Proofs.Grammar.Acceptance
import Contractum.Proofs.Names.Fresh
import Contractum.Proofs.Reduction.Preservation
import Contractum.Proofs.Spelling.Lexical

/-!
# Lexical names of parsed and reduced terms

What is parsed has lexical names, since its names are read off a text. Steps keep them
lexical: the only names that they make are old ones followed by primes, and a prime always
continues a variable, keywords excluded for good.
-/

namespace Contractum

open Text

variable {name x y : String} {c : Char} {cs : List Char}

/-- No keyword ends with a prime. -/
theorem Mark.ofWord?_append_prime (word : List Char) : Mark.ofWord? (word ++ ['\'']) = none := by
  have hne (keyword : List Char) (hlast : keyword.getLast? ≠ some '\'') :
      word ++ ['\''] ≠ keyword := by
    rintro rfl
    exact hlast List.getLast?_concat
  rw [Mark.ofWord?, if_neg (hne _ (by decide)), if_neg (hne _ (by decide))]

theorem isVariable_append_prime (h : isVariable name = true) :
    isVariable (name ++ Term.prime) = true := by
  obtain ⟨c, cs, hname, hlower, htail, -⟩ := isVariable_iff.mp h
  obtain ⟨word, primes, rfl, hword, hprimes⟩ := varTail_eq_self_iff.mp htail
  refine isVariable_iff.mpr ⟨c, word ++ primes ++ ['\''], ?_, hlower, ?_, ?_⟩
  · rw [String.toList_append, hname]
    rfl
  · refine varTail_eq_self_iff.mpr ⟨word, primes ++ ['\''], List.append_assoc .., hword, ?_⟩
    intro d hd
    rcases List.mem_append.mp hd with hd | hd
    · exact hprimes d hd
    · exact List.mem_singleton.mp hd
  · rw [← List.cons_append]
    exact Mark.ofWord?_append_prime _

theorem isVariable_primed (h : isVariable name = true) (k : Nat) :
    isVariable (Term.primed name k) = true := by
  induction k generalizing name with
  | zero => exact h
  | succ k ih => exact ih (isVariable_append_prime h)

theorem isVariable_freshName (h : isVariable name = true) (scope replacement : Term) :
    isVariable (Term.freshName name scope replacement) = true := by
  obtain ⟨k, -, hfound, -, -⟩ := Term.freshName_spec name scope replacement
  rw [hfound]
  exact isVariable_primed h (k + 1)

namespace Term

variable {t u r : Term} {path : Path}

theorem isLexical_rename (h : t.isLexical = true) (hy : isVariable y = true) :
    (t.rename x y).isLexical = true := by
  induction t with
  | var z id =>
      change isVariable (if z = x then y else z) = true
      split
      · exact hy
      · exact h
  | constr => exact h
  | lit => exact h
  | lam p body id ih =>
      obtain ⟨hp, hbody⟩ := isLexical_lam_iff.mp h
      rw [rename, isLexical_lam_iff]
      refine ⟨hp, ?_⟩
      split
      · exact hbody
      · exact ih hbody
  | letIn p value body id ihv ihb =>
      obtain ⟨hp, hvalue, hbody⟩ := isLexical_letIn_iff.mp h
      rw [rename, isLexical_letIn_iff]
      refine ⟨hp, ihv hvalue, ?_⟩
      split
      · exact hbody
      · exact ihb hbody
  | app fn arg ihf iha =>
      obtain ⟨hfn, harg⟩ := isLexical_app_iff.mp h
      exact isLexical_app_iff.mpr ⟨ihf hfn, iha harg⟩
  | arith op left right ihl ihr =>
      obtain ⟨hleft, hright⟩ := isLexical_arith_iff.mp h
      exact isLexical_arith_iff.mpr ⟨ihl hleft, ihr hright⟩
  | neg operand ih => exact ih h

theorem isLexical_subst (h : t.isLexical = true) (hr : r.isLexical = true) :
    (t.subst x r).isLexical = true := by
  induction t using subst.induct x r with
  | case1 id =>
      rw [subst, if_pos rfl]
      exact hr
  | case2 name id hname =>
      rw [subst, if_neg hname]
      exact h
  | case3 name =>
      rw [subst]
      exact h
  | case4 value =>
      rw [subst]
      exact h
  | case5 body id =>
      rw [subst, if_pos rfl]
      exact h
  | case6 param body id hparam hfree fresh ih =>
      obtain ⟨hp, hbody⟩ := isLexical_lam_iff.mp h
      have hfresh := isVariable_freshName hp body r
      rw [subst, if_neg hparam, if_pos hfree]
      exact isLexical_lam_iff.mpr ⟨hfresh, ih (isLexical_rename hbody hfresh)⟩
  | case7 param body id hparam hfree ih =>
      obtain ⟨hp, hbody⟩ := isLexical_lam_iff.mp h
      rw [subst, if_neg hparam, if_neg hfree]
      exact isLexical_lam_iff.mpr ⟨hp, ih hbody⟩
  | case8 value body id ihv =>
      obtain ⟨hp, hvalue, hbody⟩ := isLexical_letIn_iff.mp h
      rw [subst, if_pos rfl]
      exact isLexical_letIn_iff.mpr ⟨hp, ihv hvalue, hbody⟩
  | case9 name value body id hname hfree fresh ihv ihb =>
      obtain ⟨hp, hvalue, hbody⟩ := isLexical_letIn_iff.mp h
      have hfresh := isVariable_freshName hp body r
      rw [subst, if_neg hname, if_pos hfree]
      exact isLexical_letIn_iff.mpr ⟨hfresh, ihv hvalue, ihb (isLexical_rename hbody hfresh)⟩
  | case10 name value body id hname hfree ihv ihb =>
      obtain ⟨hp, hvalue, hbody⟩ := isLexical_letIn_iff.mp h
      rw [subst, if_neg hname, if_neg hfree]
      exact isLexical_letIn_iff.mpr ⟨hp, ihv hvalue, ihb hbody⟩
  | case11 fn arg ihf iha =>
      obtain ⟨hfn, harg⟩ := isLexical_app_iff.mp h
      rw [subst]
      exact isLexical_app_iff.mpr ⟨ihf hfn, iha harg⟩
  | case12 op left right ihl ihr =>
      obtain ⟨hleft, hright⟩ := isLexical_arith_iff.mp h
      rw [subst]
      exact isLexical_arith_iff.mpr ⟨ihl hleft, ihr hright⟩
  | case13 operand ih =>
      rw [subst]
      exact ih h

/-- A child has lexical names, and can be replaced by any other term that has. -/
theorem isLexical_child {c : Term} {i : Nat} (h : t.isLexical = true)
    (hchild : t.child? i = some c) :
    c.isLexical = true ∧ ∀ u : Term, u.isLexical = true → (t.setChild i u).isLexical = true := by
  cases child?_eq_some_iff.mp hchild with
  | body =>
      obtain ⟨hp, hbody⟩ := isLexical_lam_iff.mp h
      exact ⟨hbody, fun u hu => isLexical_lam_iff.mpr ⟨hp, hu⟩⟩
  | letValue =>
      obtain ⟨hp, hvalue, hbody⟩ := isLexical_letIn_iff.mp h
      exact ⟨hvalue, fun u hu => isLexical_letIn_iff.mpr ⟨hp, hu, hbody⟩⟩
  | letBody =>
      obtain ⟨hp, hvalue, hbody⟩ := isLexical_letIn_iff.mp h
      exact ⟨hbody, fun u hu => isLexical_letIn_iff.mpr ⟨hp, hvalue, hu⟩⟩
  | fn =>
      obtain ⟨hfn, harg⟩ := isLexical_app_iff.mp h
      exact ⟨hfn, fun u hu => isLexical_app_iff.mpr ⟨hu, harg⟩⟩
  | arg =>
      obtain ⟨hfn, harg⟩ := isLexical_app_iff.mp h
      exact ⟨harg, fun u hu => isLexical_app_iff.mpr ⟨hfn, hu⟩⟩
  | left =>
      obtain ⟨hleft, hright⟩ := isLexical_arith_iff.mp h
      exact ⟨hleft, fun u hu => isLexical_arith_iff.mpr ⟨hu, hright⟩⟩
  | right =>
      obtain ⟨hleft, hright⟩ := isLexical_arith_iff.mp h
      exact ⟨hright, fun u hu => isLexical_arith_iff.mpr ⟨hleft, hu⟩⟩
  | operand => exact ⟨h, fun u hu => hu⟩

theorem isLexical_contract (h : t.isLexical = true) (hu : Contracts t u) :
    u.isLexical = true := by
  cases hu with
  | beta x body id arg =>
      obtain ⟨hfn, harg⟩ := isLexical_app_iff.mp h
      exact isLexical_subst (isLexical_lam_iff.mp hfn).2 harg
  | arith => rfl
  | neg => rfl

/-- No context is needed for names to be lexical. -/
theorem passesToChildren_isLexical :
    PassesToChildren fun (_ : Unit) (t : Term) => t.isLexical = true := by
  intro a t i c h hchild
  exact ⟨(), isLexical_child h hchild⟩

/-- Steps keep names lexical. -/
theorem isLexical_contractAt (h : t.isLexical = true) (hu : t.contractAt path = .ok u) :
    u.isLexical = true := by
  apply passesToChildren_isLexical.contractAt (a := ()) _ h hu
  intro b redex v hredex hv
  exact isLexical_contract hredex hv

theorem isLexical_numberFrom (n : Nat) (scope : Scope) (h : t.isLexical = true) :
    (t.numberFrom n scope).isLexical = true := by
  induction t generalizing n scope with
  | var | constr | lit => exact h
  | lam p body id ih =>
      obtain ⟨hp, hbody⟩ := isLexical_lam_iff.mp h
      exact isLexical_lam_iff.mpr ⟨hp, ih _ _ hbody⟩
  | letIn p value body id ihv ihb =>
      obtain ⟨hp, hvalue, hbody⟩ := isLexical_letIn_iff.mp h
      exact isLexical_letIn_iff.mpr ⟨hp, ihv _ _ hvalue, ihb _ _ hbody⟩
  | app fn arg ihf iha =>
      obtain ⟨hfn, harg⟩ := isLexical_app_iff.mp h
      exact isLexical_app_iff.mpr ⟨ihf _ _ hfn, iha _ _ harg⟩
  | arith op left right ihl ihr =>
      obtain ⟨hleft, hright⟩ := isLexical_arith_iff.mp h
      exact isLexical_arith_iff.mpr ⟨ihl _ _ hleft, ihr _ _ hright⟩
  | neg operand ih => exact ih _ _ h

end Term

/-- Whether the name that a token carries is lexical. -/
@[simp] def Token.isLexical : Token → Bool
  | .var x => isVariable x
  | .constr c => isConstructor c
  | _ => true

theorem isConstructor_ofList (h : isUpper c = true) :
    isConstructor (String.ofList (c :: cs.takeWhile isWord)) = true :=
  isConstructor_iff.mpr ⟨c, _, String.toList_ofList, h, fun _ hd => List.mem_takeWhile_imp hd⟩

theorem isVariable_ofList (h : isLower c = true)
    (hword : Mark.ofWord? (c :: Lexeme.varTail cs) = none) :
    isVariable (String.ofList (c :: Lexeme.varTail cs)) = true :=
  isVariable_iff.mpr ⟨c, _, String.toList_ofList, h, varTail_varTail cs, hword⟩

/-- The longest match of a class is a complete token of it. -/
theorem Lexeme.isLexical_of_read {token : Token} {width : Nat}
    (h : Lexeme.read? c cs = some (.token token, width)) : token.isLexical = true := by
  generalize hlexeme : Lexeme.token token = lexeme at h
  cases Lexeme.opens_of_read h with
  | arrow | mark =>
      cases hlexeme
      rfl
  | digit =>
      rw [Lexeme.ofDigits] at hlexeme
      split at hlexeme <;> cases hlexeme
      rfl
  | upper hupper =>
      cases hlexeme
      exact isConstructor_ofList hupper
  | lower hlower =>
      rw [Lexeme.ofWord] at hlexeme
      split at hlexeme <;> cases hlexeme
      · rfl
      · next hnone => exact isVariable_ofList hlower hnone

/-- A tree has the names of its tokens. -/
theorem Derives.isLexical {tier : Tier} {ts : List Token} {t : Term} (h : Derives tier ts t)
    (hts : ∀ token ∈ ts, token.isLexical = true) : t.isLexical = true := by
  induction h with
  | letIn _ _ ihv ihb =>
      simp only [List.forall_mem_cons, List.forall_mem_append] at hts
      obtain ⟨-, hx, -, hvalue, -, hbody⟩ := hts
      exact Term.isLexical_letIn_iff.mpr ⟨hx, ihv hvalue, ihb hbody⟩
  | lam _ ih =>
      simp only [List.forall_mem_cons] at hts
      obtain ⟨-, hx, -, hbody⟩ := hts
      exact Term.isLexical_lam_iff.mpr ⟨hx, ih hbody⟩
  | sum _ _ _ ihl ihr | prod _ _ _ ihl ihr =>
      simp only [List.forall_mem_cons, List.forall_mem_append] at hts
      obtain ⟨hleft, -, hright⟩ := hts
      exact Term.isLexical_arith_iff.mpr ⟨ihl hleft, ihr hright⟩
  | neg _ ih => exact ih (List.forall_mem_cons.mp hts).2
  | app _ _ ihf iha =>
      obtain ⟨hfn, harg⟩ := List.forall_mem_append.mp hts
      exact Term.isLexical_app_iff.mpr ⟨ihf hfn, iha harg⟩
  | var | constr => exact hts _ (List.mem_singleton_self _)
  | literal => rfl
  | parens _ ih =>
      simp only [List.forall_mem_cons, List.forall_mem_append] at hts
      exact ih hts.2.1
  | ofSum _ ih | ofProd _ ih | ofUnary _ ih | ofApp _ ih | ofAtom _ ih => exact ih hts

/-- The names of a parsed term are lexical. -/
theorem Term.isLexical_of_parse {text : String} {t : Term} (h : Term.parse text = .ok t) :
    t.isLexical = true := by
  obtain ⟨ts, t, hderives, rfl, hread⟩ := Term.exists_tree_of_parse h
  apply Term.isLexical_numberFrom
  apply hderives.isLexical
  intro token htoken
  obtain ⟨c, cs, width, hread⟩ := hread token htoken
  exact Lexeme.isLexical_of_read hread

end Contractum
