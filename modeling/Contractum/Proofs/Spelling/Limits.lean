import Contractum.Proofs.Grammar.Acceptance
import Contractum.Term.Printer
import Contractum.Term.Redex

/-!
# Numbers that were read

A number is read from at most as many digits as it may be written with, so it can be written
again. A parsed term can be written as a whole, and a term that can be written has no subterm
that cannot.
-/

namespace Contractum

open Text

variable {c : Char} {n : Nat} {cs : List Char}

theorem digitValue?_lt (h : digitValue? c = some n) : n < 10 := by
  rw [digitValue?] at h
  split at h
  · split at h
    · next hrange =>
        cases h
        rw [Bool.and_eq_true, decide_eq_true_eq, decide_eq_true_eq] at hrange
        have hle : c.toNat ≤ 57 := hrange.2
        omega
    · cases h
  · obtain ⟨first, hfirst, rfl⟩ := Option.map_eq_some_iff.mp h
    have hrange := Array.find?_some hfirst
    rw [Bool.and_eq_true, decide_eq_true_eq, decide_eq_true_eq] at hrange
    omega

/-- Digits behind a number give a number below the next one with as many more digits. -/
theorem foldl_digits_lt (n : Nat) (cs : List Char) :
    cs.foldl (fun n c => 10 * n + (digitValue? c).getD 0) n < (n + 1) * Nat.pow 10 cs.length := by
  induction cs generalizing n with
  | nil =>
      change n < (n + 1) * 1
      omega
  | cons c cs ih =>
      have hdigit : (digitValue? c).getD 0 < 10 := by
        cases hvalue : digitValue? c with
        | none => decide
        | some d => exact digitValue?_lt hvalue
      have hpow : Nat.pow 10 (c :: cs).length = Nat.pow 10 cs.length * 10 := rfl
      calc
        _ < (10 * n + (digitValue? c).getD 0 + 1) * Nat.pow 10 cs.length := ih _
        _ ≤ (n + 1) * 10 * Nat.pow 10 cs.length := Nat.mul_le_mul_right _ (by omega)
        _ = (n + 1) * Nat.pow 10 (c :: cs).length := by rw [hpow, Nat.mul_assoc, Nat.mul_comm 10]

theorem digitsValue_lt {limit : Nat} (h : cs.length ≤ limit) :
    digitsValue cs < Nat.pow 10 limit := by
  have hvalue : digitsValue cs < (0 + 1) * Nat.pow 10 cs.length := foldl_digits_lt 0 cs
  have hlimit : Nat.pow 10 cs.length ≤ Nat.pow 10 limit := Nat.pow_le_pow_right (by decide) h
  omega

/-- A number that is read within the limit can be written. -/
theorem isWritable_digitsValue (h : cs.length ≤ digitLimit) :
    Text.isWritable (digitsValue cs) = true := by
  rw [Text.isWritable, decide_eq_true_eq, Int.natAbs_natCast]
  unfold digitBound
  exact digitsValue_lt h

theorem isWritable_neg (k : Int) : Text.isWritable (-k) = Text.isWritable k := by
  rw [Text.isWritable, Text.isWritable, Int.natAbs_neg]

/-- A number that a user enters can be written. -/
theorem isWritable_of_readInt {text : String} {k : Int} (h : readInt text = .ok k) :
    Text.isWritable k = true := by
  rw [readInt] at h
  simp only at h
  split at h
  · cases h
  · split at h
    · next hlimit =>
        split at h
        · cases h
          split
          · rw [isWritable_neg]
            exact isWritable_digitsValue hlimit
          · exact isWritable_digitsValue hlimit
        · cases h
    · cases h

/-- Whether the value that a token carries can be written. -/
def Token.isWritable : Token → Bool
  | .literal n => Text.isWritable n
  | _ => true

theorem Lexeme.isWritable_of_read {token : Token} {width : Nat}
    (h : Lexeme.read? c cs = some (.token token, width)) : token.isWritable = true := by
  generalize hlexeme : Lexeme.token token = lexeme at h
  cases Lexeme.opens_of_read h with
  | arrow | mark | upper =>
      cases hlexeme
      rfl
  | digit =>
      rw [Lexeme.ofDigits] at hlexeme
      split at hlexeme
      · next hlimit =>
          cases hlexeme
          exact isWritable_digitsValue hlimit
      · cases hlexeme
  | lower =>
      rw [Lexeme.ofWord] at hlexeme
      split at hlexeme <;> cases hlexeme <;> rfl

/-- A tree has the literals of its tokens. -/
theorem Derives.isWritable {tier : Tier} {ts : List Token} {t : Term} (h : Derives tier ts t)
    (hts : ∀ token ∈ ts, token.isWritable = true) : t.isWritable = true := by
  induction h with
  | letIn _ _ ihv ihb =>
      simp only [List.forall_mem_cons, List.forall_mem_append] at hts
      obtain ⟨-, -, -, hvalue, -, hbody⟩ := hts
      exact Bool.and_eq_true_iff.mpr ⟨ihv hvalue, ihb hbody⟩
  | lam _ ih =>
      simp only [List.forall_mem_cons] at hts
      obtain ⟨-, -, -, hbody⟩ := hts
      exact ih hbody
  | sum _ _ _ ihl ihr | prod _ _ _ ihl ihr =>
      simp only [List.forall_mem_cons, List.forall_mem_append] at hts
      obtain ⟨hleft, -, hright⟩ := hts
      exact Bool.and_eq_true_iff.mpr ⟨ihl hleft, ihr hright⟩
  | neg _ ih => exact ih (List.forall_mem_cons.mp hts).2
  | app _ _ ihf iha =>
      obtain ⟨hfn, harg⟩ := List.forall_mem_append.mp hts
      exact Bool.and_eq_true_iff.mpr ⟨ihf hfn, iha harg⟩
  | var | constr => rfl
  | literal n =>
      have hliteral := hts _ (List.mem_singleton_self _)
      rwa [Token.isWritable] at hliteral
  | parens _ ih =>
      simp only [List.forall_mem_cons, List.forall_mem_append] at hts
      exact ih hts.2.1
  | ofSum _ ih | ofProd _ ih | ofUnary _ ih | ofApp _ ih | ofAtom _ ih => exact ih hts

namespace Term

variable {t c : Term} {i : Nat} {path : Path}

theorem isWritable_numberFrom (t : Term) (n : Nat) (scope : Scope) :
    (t.numberFrom n scope).isWritable = t.isWritable := by
  induction t generalizing n scope with
  | var | constr | lit => rfl
  | lam _ _ _ ih | neg _ ih => exact ih _ _
  | letIn _ _ _ _ ihl ihr | app _ _ ihl ihr | arith _ _ _ ihl ihr =>
      exact congrArg₂ (· && ·) (ihl _ _) (ihr _ _)

/-- A parsed term can be written. -/
theorem isWritable_of_parse {text : String} (h : parse text = .ok t) : t.isWritable = true := by
  obtain ⟨ts, u, hderives, rfl, hread⟩ := exists_tree_of_parse h
  rw [numbered, isWritable_numberFrom]
  apply hderives.isWritable
  intro token htoken
  obtain ⟨c, cs, width, hread⟩ := hread token htoken
  exact Lexeme.isWritable_of_read hread

theorem isWritable_child (h : t.isWritable = true) (hchild : t.child? i = some c) :
    c.isWritable = true := by
  cases child?_eq_some_iff.mp hchild with
  | body | operand => exact h
  | letValue | fn | left => exact (Bool.and_eq_true_iff.mp h).1
  | letBody | arg | right => exact (Bool.and_eq_true_iff.mp h).2

theorem isWritable_get? (h : t.isWritable = true) (hget : t.get? path = some c) :
    c.isWritable = true := by
  induction path generalizing t with
  | nil =>
      rw [get?_nil, Option.some_inj] at hget
      exact hget ▸ h
  | cons i path ih =>
      obtain ⟨d, hd, hget⟩ := Option.bind_eq_some_iff.mp hget
      exact ih (isWritable_child h hd) hget

/-- A step that divides by zero is refused with a dividend of the term. -/
theorem isWritable_dividend {dividend : Int} (h : t.isWritable = true)
    (hrefused : t.contractAt path = .error (.divisionByZero dividend)) :
    Text.isWritable dividend = true := by
  rw [contractAt] at hrefused
  cases hredex : t.get? path with
  | none =>
      rw [hredex] at hrefused
      cases hrefused
  | some redex =>
      have hwritable := isWritable_get? h hredex
      rw [hredex] at hrefused
      simp only [contract] at hrefused
      split at hrefused
      · cases hrefused
      · next op m n =>
          split at hrefused
          · cases hrefused
          · cases hrefused
            exact (Bool.and_eq_true_iff.mp hwritable).1
      · cases hrefused
      · cases hrefused

end Term

end Contractum
