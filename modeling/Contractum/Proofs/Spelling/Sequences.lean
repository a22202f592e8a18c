import Contractum.Proofs.Spelling.Digits
import Contractum.Proofs.Spelling.Tiling

/-!
# Sequences of tokens

Tokens are spelled out one behind the other, with gaps between them and around them. What is read
off such a text is the tokens that were spelled, and the end behind them. A gap breaks off every
word, so no two tokens need to be looked at together.
-/

namespace Contractum

open Text

/-- How a token is spelled. A number may be written with leading zeros, as long as all its digits
are within the limit. The end of a text and a character that is no token have no spelling. -/
inductive Token.Spelled : Token → List Char → Prop
  | mark (m : Mark) : Spelled (.mark m) m.spelling.toList
  | var {word : List Char} (allowed : Rule.name.Allows word)
      (noKeyword : ∀ m : Mark, m.isKeyword = true → word ≠ m.spelling.toList) :
      Spelled (.var (String.ofList word)) word
  | constr {word : List Char} (allowed : Rule.constr.Allows word) :
      Spelled (.constr (String.ofList word)) word
  | literal {zeros n : Nat} (short : zeros + (Nat.toDigits 10 n).length ≤ digitLimit) :
      Spelled (.literal n) (List.replicate zeros '0' ++ Nat.toDigits 10 n)

/-- The texts that spell tokens in a row, with gaps between all of them and any around them. -/
inductive Spaced : List Token → List Char → Prop
  | nil : Spaced [] []
  | gap {c : Char} {ts : List Token} {cs : List Char} (gap : isGap c = true) (rest : Spaced ts cs) :
      Spaced ts (c :: cs)
  | token {t : Token} {word : List Char} {ts : List Token} {cs : List Char}
      (spelled : t.Spelled word) (apart : ∀ c ∈ cs.head?, isGap c = true) (rest : Spaced ts cs) :
      Spaced (t :: ts) (word ++ cs)

variable {t : Token} {ts : List Token} {word cs : List Char}

/-- Leading zeros do not change a number. -/
theorem digitsValue_replicate_zero_append (zeros : Nat) (digits : List Char) :
    digitsValue (List.replicate zeros '0' ++ digits) = digitsValue digits := by
  induction zeros with
  | zero => rfl
  | succ zeros ih => exact ih

/-- A name that is no keyword is a variable. -/
theorem isVariable_of_allows (h : Rule.name.Allows word)
    (hkeyword : ∀ m : Mark, m.isKeyword = true → word ≠ m.spelling.toList) :
    isVariable (String.ofList word) = true := by
  cases h with
  | name lower word primes =>
      have hlet : _ ≠ ['l', 'e', 't'] := hkeyword .letWord rfl
      have hin : _ ≠ ['i', 'n'] := hkeyword .inWord rfl
      refine isVariable_iff.mpr ⟨_, _, String.toList_ofList, lower, varTail_of_eq word primes, ?_⟩
      rw [Mark.ofWord?, if_neg hlet, if_neg hin]

theorem isConstructor_of_allows (h : Rule.constr.Allows word) :
    isConstructor (String.ofList word) = true := by
  cases h with
  | constr upper word => exact isConstructor_iff.mpr ⟨_, _, String.toList_ofList, upper, word⟩

/-- A number is read back from its digits behind any zeros, within the limit. -/
theorem spells_padded {zeros n : Nat} (short : zeros + (Nat.toDigits 10 n).length ≤ digitLimit) :
    Spells (List.replicate zeros '0' ++ Nat.toDigits 10 n) [.literal n] := by
  have hdigits : ∀ d ∈ List.replicate zeros '0' ++ Nat.toDigits 10 n, isDigit d = true := by
    rw [List.forall_mem_append]
    refine ⟨fun d hd => ?_, fun d => isDigit_of_mem_toDigits⟩
    rw [List.eq_of_mem_replicate hd]
    rfl
  have hne : List.replicate zeros '0' ++ Nat.toDigits 10 n ≠ [] :=
    List.append_ne_nil_of_right_ne_nil _ Nat.toDigits_ne_nil
  have hlength : (List.replicate zeros '0' ++ Nat.toDigits 10 n).length ≤ digitLimit := by
    rwa [List.length_append, List.length_replicate]
  have hspells := spells_digits hne hdigits hlength
  rwa [digitsValue_replicate_zero_append, digitsValue_toDigits] at hspells

/-- A spelled token is read back in front of every break. -/
theorem Token.Spelled.spells (h : t.Spelled word) : Spells word [t] := by
  cases h with
  | mark m => exact spells_mark m
  | var allowed noKeyword =>
      have hvariable := spells_variable (isVariable_of_allows allowed noKeyword)
      rwa [String.toList_ofList] at hvariable
  | constr allowed =>
      have hconstructor := spells_constructor (isConstructor_of_allows allowed)
      rwa [String.toList_ofList] at hconstructor
  | literal short => exact spells_padded short

/-- A token with a gap behind it. -/
theorem Spaced.token_gap {c : Char} (h : Spaced ts cs) (spelled : t.Spelled word)
    (gap : isGap c = true) : Spaced (t :: ts) (word ++ c :: cs) := by
  refine .token spelled ?_ (.gap gap h)
  rintro d ⟨⟩
  exact gap

/-- What is read off a text of tokens in a row is these tokens. Behind each stands a gap or the
end, and in front of both it is read by itself. -/
theorem Spaced.lexemes_eq (h : Spaced ts cs) :
    lexemes cs = (ts ++ [Token.finish]).map .token := by
  induction h with
  | nil => exact lexemes_nil
  | gap gap _ ih => rw [lexemes_gap gap, ih]
  | token spelled apart _ ih =>
      have hbreaks : Breaks _ := fun c hc => Bool.or_eq_true_iff.mpr (.inl (apart c hc))
      rw [spelled.spells _ hbreaks, ih]
      rfl

namespace Stream

variable {text : String}

/-- Reading undoes spelling. From a text of tokens in a row, a stream hands out these tokens and
then the end. -/
theorem exists_drain_spaced (h : Spaced ts text.toList) :
    ∃ ls s s', Token.ofText text = .ok ls ∧ Stream.ofText text = .ok s ∧ s.drain = .ok ls s' ∧
      ls.map (·.token) = ts ++ [.finish] := by
  obtain ⟨ls, hscan, htokens⟩ := exists_located h.lexemes_eq
  have hread : Token.ofText text = .ok ls := Token.ofText_eq_ok_iff.mpr hscan
  obtain ⟨s, hs, hitems⟩ := Stream.exists_of_tokens_of_text hread
  have hended : Ended s.items := items_of_ofText hs ▸ ended_scan 0 text.toList
  obtain ⟨s', hdrain⟩ := exists_drain hended hitems
  exact ⟨ls, s, s', hread, hs, hdrain, htokens⟩

/-- The minus sign is no part of the arrow behind it, the name none of the keyword in front of it,
and the zeros all belong to the number. -/
theorem exists_drain_spaced_alike :
    let ts : List Token :=
      [.mark .minus, .mark .arrow, .mark .letWord, .var "let'", .literal 70, .constr "In"]
    Spaced ts "\t- -> let let'  0070\nIn".toList ∧
      ∃ ls s s', Stream.ofText "\t- -> let let'  0070\nIn" = .ok s ∧ s.drain = .ok ls s' ∧
        ls.map (·.token) = ts ++ [.finish] := by
  intro ts
  have hname : Rule.name.Allows ['l', 'e', 't', '\''] :=
    @Rule.Allows.name 'l' ['e', 't'] ['\''] rfl (List.all_eq_true.mp rfl)
      fun d => List.mem_singleton.mp
  have hnoKeyword : ∀ m : Mark, m.isKeyword = true → ['l', 'e', 't', '\''] ≠ m.spelling.toList := by
    rintro ⟨⟩ <;> decide
  have hnumber : (Token.literal 70).Spelled (List.replicate 2 '0' ++ Nat.toDigits 10 70) :=
    .literal (by decide +kernel)
  have hconstr : (Token.constr "In").Spelled ['I', 'n'] :=
    .constr (.constr rfl (List.all_eq_true.mp rfl))
  have hlast : Spaced [.constr "In"] ['I', 'n'] := .token hconstr (by rintro c ⟨⟩) .nil
  have hspaced : Spaced ts "\t- -> let let'  0070\nIn".toList := by
    refine .gap rfl (.token_gap ?_ (.mark .minus) rfl)
    refine .token_gap ?_ (.mark .arrow) rfl
    refine .token_gap ?_ (.mark .letWord) rfl
    refine .token_gap ?_ (.var hname hnoKeyword) rfl
    exact .gap rfl (hlast.token_gap hnumber rfl)
  obtain ⟨ls, s, s', -, hs, hdrain, htokens⟩ := exists_drain_spaced hspaced
  exact ⟨hspaced, ls, s, s', hs, hdrain, htokens⟩

end Stream

end Contractum
