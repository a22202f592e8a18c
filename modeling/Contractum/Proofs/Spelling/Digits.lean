import Mathlib.Data.List.Basic
import Contractum.Proofs.Spelling.Spells
import Contractum.Proofs.Spelling.Words

/-!
# Spelled numbers

A natural number within the limit is written with ASCII digits that are read back as the
same number. Different integers are written differently, whatever their size.
-/

namespace Contractum

open Text

variable {c : Char} {n : Nat}

theorem digitValue?_of_isDigit (h : c.isDigit = true) : digitValue? c = some (c.toNat - 48) := by
  have hrange : 48 ≤ c.toNat ∧ c.toNat ≤ 57 := by
    simpa [Char.isDigit, UInt32.le_iff_toNat_le] using h
  have hascii : c.toNat < 128 := by omega
  have hdigit : ('0' ≤ c && c ≤ '9') = true := by
    rw [Bool.and_eq_true, decide_eq_true_eq, decide_eq_true_eq]
    exact hrange
  rw [digitValue?, if_pos hascii, if_pos hdigit]

theorem isDigit_of_mem_toDigits (h : c ∈ Nat.toDigits 10 n) : isDigit c = true := by
  rw [isDigit, digitValue?_of_isDigit (Nat.isDigit_of_mem_toDigits (by decide) (Nat.le_refl 10) h)]
  rfl

/-- The digits of a number have its value. -/
theorem digitsValue_toDigits (n : Nat) : digitsValue (Nat.toDigits 10 n) = n := by
  have hfold : digitsValue (Nat.toDigits 10 n) = Nat.ofDigitChars 10 (Nat.toDigits 10 n) 0 := by
    rw [digitsValue, Nat.ofDigitChars_eq_foldl]
    apply List.foldl_ext
    intro m d hd
    have hdigit := Nat.isDigit_of_mem_toDigits (by decide) (Nat.le_refl 10) hd
    rw [digitValue?_of_isDigit hdigit]
    rfl
  rw [hfold, Nat.ofDigitChars_ten_toDigits]

theorem length_toDigits_le {limit : Nat} (hpos : 0 < limit) (h : n < Nat.pow 10 limit) :
    (Nat.toDigits 10 n).length ≤ limit :=
  (Nat.length_toDigits_le_iff (by decide) hpos).mpr h

theorem length_toDigits_le_digitLimit (h : n < digitBound) :
    (Nat.toDigits 10 n).length ≤ digitLimit := by
  apply length_toDigits_le (by decide)
  unfold digitBound at h
  exact h

/-- A run of digits within the limit is read as the number that it writes. -/
theorem spells_digits {digits : List Char} (hne : digits ≠ [])
    (hdigits : ∀ d ∈ digits, isDigit d = true) (hlength : digits.length ≤ digitLimit) :
    Spells digits [.literal (digitsValue digits)] := by
  obtain ⟨c, cs, rfl⟩ := List.exists_cons_of_ne_nil hne
  obtain ⟨hc, hcs⟩ := List.forall_mem_cons.mp hdigits
  apply spells_of_read (isGap_eq_false rfl rfl rfl hc)
  intro rest hrest
  rw [Lexeme.read?_of_isDigit hc,
    takeWhile_append_of_stopped hcs (hrest.stopped rfl rfl rfl rfl), Lexeme.ofDigits,
    if_pos hlength]

theorem spells_naturalText (h : n < digitBound) : Spells (naturalText n).toList [.literal n] := by
  have hspells := spells_digits Nat.toDigits_ne_nil (fun _ => isDigit_of_mem_toDigits)
    (length_toDigits_le_digitLimit h)
  rwa [digitsValue_toDigits, ← String.toList_ofList (l := Nat.toDigits 10 n)] at hspells

theorem naturalText_injective : Function.Injective naturalText := by
  intro m n h
  have hdigits : Nat.toDigits 10 m = Nat.toDigits 10 n := String.ofList_injective h
  rw [← digitsValue_toDigits m, hdigits, digitsValue_toDigits]

theorem isDigit_of_mem_naturalText {n : Nat} {c : Char} (h : c ∈ (naturalText n).toList) :
    isDigit c = true := by
  rw [naturalText, String.toList_ofList] at h
  exact isDigit_of_mem_toDigits h

theorem not_mem_naturalText {c : Char} (hc : isDigit c = false) (n : Nat) :
    c ∉ (naturalText n).toList :=
  not_mem_of_forall hc fun _ => isDigit_of_mem_naturalText

theorem not_mem_integerText {c : Char} (hc : isDigit c = false) (hsign : c ≠ '-') (n : Int) :
    c ∉ (integerText n).toList := by
  cases n with
  | ofNat n => exact not_mem_naturalText hc n
  | negSucc n =>
      rw [integerText, String.toList_append, List.mem_append, not_or]
      exact ⟨by simpa using hsign, not_mem_naturalText hc (n + 1)⟩

theorem naturalText_ne_minus (m n : Nat) : naturalText m ≠ "-" ++ naturalText n := by
  intro h
  apply not_mem_naturalText (c := '-') rfl m
  rw [h]
  simp

theorem integerText_injective : Function.Injective integerText := by
  intro m n h
  cases m with
  | ofNat m =>
      cases n with
      | ofNat n => rw [naturalText_injective h]
      | negSucc n => exact absurd h (naturalText_ne_minus m (n + 1))
  | negSucc m =>
      cases n with
      | ofNat n => exact absurd h.symm (naturalText_ne_minus n (m + 1))
      | negSucc n =>
          have hsucc : m + 1 = n + 1 := naturalText_injective (String.append_right_inj _ |>.mp h)
          rw [Nat.succ_inj.mp hsucc]

end Contractum
