import Mathlib.Data.List.TakeWhile
import Contractum.Term.Name
import Contractum.Token.Scan

/-!
# Lexical names

A name is lexical when it is a complete token of its class: a name of variables and binders
is read as one variable, keywords excluded, and a name of a constructor as one constructor.
Nothing of such a name is left over, so only what stands behind it can lengthen it.
-/

namespace Contractum

open Text

/-- Whether a name is a complete variable and no keyword. -/
def isVariable (name : String) : Bool :=
  match name.toList with
  | [] => false
  | c :: cs => isLower c && Lexeme.varTail cs == cs && (Mark.ofWord? (c :: cs)).isNone

/-- Whether a name is a complete constructor. -/
def isConstructor (name : String) : Bool :=
  match name.toList with
  | [] => false
  | c :: cs => isUpper c && cs.takeWhile isWord == cs

/-- Whether the names of variables, binders and constructors are complete tokens of their
classes. -/
@[simp] def Term.isLexical : Term → Bool
  | .var x _ => isVariable x
  | .constr c => isConstructor c
  | .lit _ => true
  | .lam x body _ => isVariable x && body.isLexical
  | .letIn x value body _ => isVariable x && value.isLexical && body.isLexical
  | .app fn arg => fn.isLexical && arg.isLexical
  | .arith _ left right => left.isLexical && right.isLexical
  | .neg operand => operand.isLexical

variable {name : String} {c : Char} {cs : List Char}

theorem isVariable_iff :
    isVariable name = true ↔ ∃ c cs, name.toList = c :: cs ∧ isLower c = true ∧
      Lexeme.varTail cs = cs ∧ Mark.ofWord? (c :: cs) = none := by
  rw [isVariable]
  cases name.toList with
  | nil => simp
  | cons c cs => simp [and_assoc]

theorem isConstructor_iff :
    isConstructor name = true ↔ ∃ c cs, name.toList = c :: cs ∧ isUpper c = true ∧
      ∀ d ∈ cs, isWord d = true := by
  rw [isConstructor]
  cases name.toList with
  | nil => simp
  | cons c cs => simp [List.takeWhile_eq_self_iff, and_assoc]

namespace Term

variable {x : String} {t u : Term} {id : Option Int}

theorem isLexical_lam_iff :
    (lam x t id).isLexical = true ↔ isVariable x = true ∧ t.isLexical = true := by
  rw [isLexical, Bool.and_eq_true]

theorem isLexical_letIn_iff :
    (letIn x t u id).isLexical = true ↔
      isVariable x = true ∧ t.isLexical = true ∧ u.isLexical = true := by
  rw [isLexical, Bool.and_eq_true, Bool.and_eq_true, and_assoc]

theorem isLexical_app_iff :
    (app t u).isLexical = true ↔ t.isLexical = true ∧ u.isLexical = true := by
  rw [isLexical, Bool.and_eq_true]

theorem isLexical_arith_iff {op : Op} :
    (arith op t u).isLexical = true ↔ t.isLexical = true ∧ u.isLexical = true := by
  rw [isLexical, Bool.and_eq_true]

end Term

/-- Whether none of the first characters satisfies `p`, there being none at all included. -/
def Stopped (p : Char → Bool) (cs : List Char) : Prop :=
  ∀ c ∈ cs.head?, p c = false

section Stopped

variable {p : Char → Bool} {ds : List Char}

theorem Stopped.takeWhile (h : Stopped p cs) : cs.takeWhile p = [] := by
  cases cs with
  | nil => rfl
  | cons c cs => rw [List.takeWhile_cons, h c rfl]; rfl

theorem Stopped.dropWhile (h : Stopped p cs) : cs.dropWhile p = cs := by
  cases cs with
  | nil => rfl
  | cons c cs => rw [List.dropWhile_cons, h c rfl]; rfl

theorem stopped_dropWhile (p : Char → Bool) (cs : List Char) : Stopped p (cs.dropWhile p) := by
  intro c hc
  have h := List.head?_dropWhile_not p cs
  rw [Option.mem_def.mp hc] at h
  exact h

theorem stopped_of_forall (h : ∀ c ∈ cs, p c = false) : Stopped p cs :=
  fun c hc => h c (List.mem_of_head? hc)

theorem Stopped.append (h : Stopped p ds) (hne : ds ≠ []) (cs : List Char) :
    Stopped p (ds ++ cs) := by
  obtain ⟨d, ds, rfl⟩ := List.exists_cons_of_ne_nil hne
  exact h

theorem takeWhile_append_of_stopped (hds : ∀ d ∈ ds, p d = true) (h : Stopped p cs) :
    (ds ++ cs).takeWhile p = ds := by
  rw [List.takeWhile_append_of_pos hds, h.takeWhile, List.append_nil]

theorem dropWhile_append_of_stopped (hds : ∀ d ∈ ds, p d = true) (h : Stopped p cs) :
    (ds ++ cs).dropWhile p = cs := by
  rw [List.dropWhile_append_of_pos hds, h.dropWhile]

end Stopped

/-- What continues a variable ends where neither a word character nor a prime stands. -/
theorem varTail_append {word primes rest : List Char} (hword : ∀ d ∈ word, isWord d = true)
    (hprimes : ∀ d ∈ primes, d = '\'') (hrestWord : Stopped isWord rest)
    (hrestPrime : Stopped (· == '\'') rest) :
    Lexeme.varTail (word ++ primes ++ rest) = word ++ primes := by
  have hstopped : Stopped isWord (primes ++ rest) := by
    cases primes with
    | nil => exact hrestWord
    | cons d primes =>
        rintro c ⟨⟩
        rw [hprimes _ List.mem_cons_self]
        decide
  rw [Lexeme.varTail, List.append_assoc, takeWhile_append_of_stopped hword hstopped,
    dropWhile_append_of_stopped hword hstopped,
    takeWhile_append_of_stopped (fun d hd => beq_iff_eq.mpr (hprimes d hd)) hrestPrime]

/-- The rest of a variable is read again as a whole. -/
theorem varTail_of_eq {word primes : List Char} (hword : ∀ d ∈ word, isWord d = true)
    (hprimes : ∀ d ∈ primes, d = '\'') : Lexeme.varTail (word ++ primes) = word ++ primes := by
  have hnil (p : Char → Bool) : Stopped p [] := by
    rintro c ⟨⟩
  have h := varTail_append hword hprimes (hnil _) (hnil _)
  rwa [List.append_nil] at h

theorem exists_varTail_eq (cs : List Char) :
    ∃ word primes, Lexeme.varTail cs = word ++ primes ∧ (∀ d ∈ word, isWord d = true) ∧
      ∀ d ∈ primes, d = '\'' := by
  refine ⟨_, _, rfl, fun d hd => List.mem_takeWhile_imp hd, fun d hd => ?_⟩
  have hprime := List.mem_takeWhile_imp (p := (· == '\'')) hd
  exact eq_of_beq hprime

theorem varTail_varTail (cs : List Char) :
    Lexeme.varTail (Lexeme.varTail cs) = Lexeme.varTail cs := by
  obtain ⟨word, primes, htail, hword, hprimes⟩ := exists_varTail_eq cs
  rw [htail, varTail_of_eq hword hprimes]

theorem varTail_eq_self_iff :
    Lexeme.varTail cs = cs ↔ ∃ word primes, cs = word ++ primes ∧ (∀ d ∈ word, isWord d = true) ∧
      ∀ d ∈ primes, d = '\'' := by
  constructor
  · intro h
    obtain ⟨word, primes, htail, hrest⟩ := exists_varTail_eq cs
    exact ⟨word, primes, h.symm.trans htail, hrest⟩
  · rintro ⟨word, primes, rfl, hword, hprimes⟩
    exact varTail_of_eq hword hprimes

section Opening

variable {p : Char → Bool} {m : Mark}

/-- The characters that are marks by themselves. -/
def markChars : List Char :=
  ['\\', '(', ')', '+', '-', '*', '/', '=']

/-- A class of characters without marks opens no mark. -/
theorem Mark.ofChar?_eq_none (hp : markChars.any p = false) (h : p c = true) :
    Mark.ofChar? c = none := by
  rw [List.any_eq_false] at hp
  unfold Mark.ofChar?
  split
  case h_9 => rfl
  all_goals
    refine absurd h (hp _ ?_)
    decide

theorem isUpper_iff : isUpper c = true ↔ 65 ≤ c.toNat ∧ c.toNat ≤ 90 := by
  rw [isUpper, Bool.and_eq_true, decide_eq_true_eq, decide_eq_true_eq]
  rfl

theorem isLower_iff : isLower c = true ↔ 97 ≤ c.toNat ∧ c.toNat ≤ 122 ∨ c = '_' := by
  rw [isLower, Bool.or_eq_true, Bool.and_eq_true, decide_eq_true_eq, decide_eq_true_eq, beq_iff_eq]
  rfl

/-- No ASCII character is a digit but the ten common ones. -/
theorem isDigit_eq_false (hascii : c.toNat < 128) (h : c.toNat < 48 ∨ 57 < c.toNat) :
    isDigit c = false := by
  have hrange : ¬ ('0' ≤ c ∧ c ≤ '9') := by
    intro hrange
    have hlower : 48 ≤ c.toNat := hrange.1
    have hupper : c.toNat ≤ 57 := hrange.2
    omega
  rw [isDigit, digitValue?, if_pos hascii, if_neg (by simpa using hrange)]
  rfl

theorem isDigit_of_isUpper (h : isUpper c = true) : isDigit c = false := by
  have hrange := isUpper_iff.mp h
  exact isDigit_eq_false (by omega) (by omega)

theorem isDigit_of_isLower (h : isLower c = true) : isDigit c = false := by
  rcases isLower_iff.mp h with hrange | rfl
  · exact isDigit_eq_false (by omega) (by omega)
  · rfl

theorem isUpper_of_isLower (h : isLower c = true) : isUpper c = false := by
  rw [Bool.eq_false_iff, ne_eq, isUpper_iff]
  rcases isLower_iff.mp h with hrange | rfl
  · omega
  · decide

theorem Lexeme.read?_of_isDigit (h : isDigit c = true) :
    Lexeme.read? c cs =
      some (ofDigits (c :: cs.takeWhile isDigit), (cs.takeWhile isDigit).length) := by
  have hmark : Mark.ofChar? c = none := Mark.ofChar?_eq_none (p := isDigit) rfl h
  rw [Lexeme.read?, hmark]
  exact if_pos h

theorem Lexeme.read?_of_isUpper (h : isUpper c = true) :
    Lexeme.read? c cs = some (.token (.constr (String.ofList (c :: cs.takeWhile isWord))),
      (cs.takeWhile isWord).length) := by
  have hmark : Mark.ofChar? c = none := Mark.ofChar?_eq_none (p := isUpper) rfl h
  rw [Lexeme.read?, hmark]
  simp only [isDigit_of_isUpper h, Bool.false_eq_true, if_false, h, if_true]

theorem Lexeme.read?_of_isLower (h : isLower c = true) :
    Lexeme.read? c cs = some (ofWord (c :: varTail cs), (varTail cs).length) := by
  have hmark : Mark.ofChar? c = none := Mark.ofChar?_eq_none (p := isLower) rfl h
  rw [Lexeme.read?, hmark]
  simp only [isDigit_of_isLower h, isUpper_of_isLower h, Bool.false_eq_true, if_false, h, if_true]

end Opening

end Contractum
