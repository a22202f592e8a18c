import Contractum.Proofs.Spelling.Lexical

/-!
# Words of the lexical rules

There are four rules: symbols, literals, constructors and names. Each of them allows words, and
a token is the longest word of a rule in front of the text. No two rules allow words with the same
first character, so the text alone decides which rule applies.

Keywords are no rule of their own: they are names that are spelled like one.
-/

namespace Contractum

open Text

/-- Whether a mark is spelled like a name. -/
def Mark.isKeyword : Mark → Bool
  | letWord | inWord => true
  | _ => false

theorem Mark.spelling_injective : Function.Injective Mark.spelling := by
  intro m m' h
  cases m <;> cases m' <;> first | rfl | exact absurd h (by decide)

theorem not_mem_of_forall {p : Char → Bool} {c : Char} {cs : List Char} (hp : p c = false)
    (h : ∀ d ∈ cs, p d = true) : c ∉ cs := by
  intro hmem
  rw [h c hmem] at hp
  cases hp

/-- The lexical rules. -/
inductive Rule where
  | symbol
  | literal
  | constr
  | name

namespace Rule

/-- The words of a rule. -/
inductive Allows : Rule → List Char → Prop
  | symbol {m : Mark} (noKeyword : m.isKeyword = false) : Allows symbol m.spelling.toList
  | literal {c : Char} {cs : List Char} (digits : ∀ d ∈ c :: cs, isDigit d = true) :
      Allows literal (c :: cs)
  | constr {c : Char} {cs : List Char} (upper : isUpper c = true)
      (word : ∀ d ∈ cs, isWord d = true) : Allows constr (c :: cs)
  | name {c : Char} {cs ds : List Char} (lower : isLower c = true)
      (word : ∀ d ∈ cs, isWord d = true) (primes : ∀ d ∈ ds, d = '\'') :
      Allows name (c :: (cs ++ ds))

/-- The longest word of a rule in front of a text. -/
structure Longest (rule : Rule) (cs word : List Char) : Prop where
  allowed : rule.Allows word
  front : word <+: cs
  longest : ∀ other, rule.Allows other → other <+: cs → other.length ≤ word.length

/-- What a word of a rule says. A name says a keyword if it is spelled like one, and a variable
otherwise. -/
inductive Says : Rule → List Char → Token → Prop
  | symbol (m : Mark) : Says symbol m.spelling.toList (.mark m)
  | literal (word : List Char) : Says literal word (.literal (digitsValue word))
  | constr (word : List Char) : Says constr word (.constr (String.ofList word))
  | keyword {m : Mark} (keyword : m.isKeyword = true) : Says name m.spelling.toList (.mark m)
  | var {word : List Char} (noKeyword : ∀ m : Mark, m.isKeyword = true → word ≠ m.spelling.toList) :
      Says name word (.var (String.ofList word))

variable {rule other : Rule} {c : Char} {cs ds word : List Char} {token : Token}

/-- What the first character of a word is, by its rule. -/
def opens : Rule → Char → Bool
  | symbol, c => (Mark.ofChar? c).isSome
  | literal, c => isDigit c
  | constr, c => isUpper c
  | name, c => isLower c

theorem Allows.exists_cons (h : rule.Allows word) :
    ∃ c cs, word = c :: cs ∧ rule.opens c = true := by
  cases h with
  | @symbol m noKeyword =>
      cases m with
      | letWord | inWord => cases noKeyword
      | lambda | opening | closing | plus | minus | star | slash | equals | arrow =>
          exact ⟨_, _, rfl, rfl⟩
  | literal digits => exact ⟨_, _, rfl, digits _ List.mem_cons_self⟩
  | constr upper => exact ⟨_, _, rfl, upper⟩
  | name lower => exact ⟨_, _, rfl, lower⟩

theorem Allows.ne_nil (h : rule.Allows word) : word ≠ [] := by
  obtain ⟨c, cs, rfl, -⟩ := h.exists_cons
  exact List.cons_ne_nil c cs

theorem Allows.opens (h : rule.Allows (c :: cs)) : rule.opens c = true := by
  obtain ⟨d, ds, heq, hopens⟩ := h.exists_cons
  cases heq
  exact hopens

/-- The first character of a word tells the rule. -/
theorem eq_of_opens (h : rule.opens c = true) (hother : other.opens c = true) : rule = other := by
  have hmark (p : Char → Bool) (hp : markChars.any p = false) (hc : p c = true) :
      ¬ (Mark.ofChar? c).isSome = true := by
    rw [Mark.ofChar?_eq_none hp hc]
    exact Bool.false_ne_true
  have hsymbol := hmark isDigit rfl
  have hsymbol' := hmark isUpper rfl
  have hsymbol'' := hmark isLower rfl
  have hupper : isUpper c = true → isDigit c = false := isDigit_of_isUpper
  have hlower : isLower c = true → isDigit c = false := isDigit_of_isLower
  have hlower' : isLower c = true → isUpper c = false := isUpper_of_isLower
  cases rule <;> cases other <;> simp only [Rule.opens] at h hother <;> simp_all

/-- Whether no words but symbols can hold a character. -/
def isForeign (c : Char) : Bool :=
  !(isDigit c || isUpper c || isLower c || isWord c || c == '\'')

theorem Allows.not_mem (h : rule.Allows word) (hrule : rule ≠ .symbol) (hc : isForeign c = true) :
    c ∉ word := by
  simp only [isForeign, Bool.not_eq_true', Bool.or_eq_false_iff, beq_eq_false_iff_ne] at hc
  obtain ⟨⟨⟨⟨hdigit, hupper⟩, hlower⟩, hword⟩, hprime⟩ := hc
  cases h with
  | symbol => exact absurd rfl hrule
  | literal digits => exact not_mem_of_forall hdigit digits
  | constr upper word =>
      apply List.not_mem_cons_of_ne_of_not_mem
      · rintro rfl
        rw [upper] at hupper
        cases hupper
      · exact not_mem_of_forall hword word
  | name lower word primes =>
      apply List.not_mem_cons_of_ne_of_not_mem
      · rintro rfl
        rw [lower] at hlower
        cases hlower
      · rw [List.mem_append, not_or]
        exact ⟨not_mem_of_forall hword word, fun hmem => hprime (primes c hmem)⟩

theorem Longest.unique {other : List Char} (h : rule.Longest cs word) (h' : rule.Longest cs other) :
    word = other := by
  have hle := h'.longest word h.allowed h.front
  have hge := h.longest other h'.allowed h'.front
  exact (List.prefix_of_prefix_length_le h.front h'.front hle).eq_of_length_le hge

/-- A longest word is one also of a shorter text, as long as it stands in front of it. -/
theorem Longest.of_front (h : rule.Longest cs word) (hfront : word <+: ds) (hcut : ds <+: cs) :
    rule.Longest ds word :=
  ⟨h.allowed, hfront, fun other hother hstart => h.longest other hother (hstart.trans hcut)⟩

/-- A word says one token only. -/
theorem Says.unique {token' : Token} (h : Says rule word token) (h' : Says rule word token') :
    token = token' := by
  generalize hword : word = word' at h'
  cases h with
  | symbol m =>
      cases h' with
      | symbol m' => rw [Mark.spelling_injective (String.toList_injective hword)]
  | literal | constr =>
      subst hword
      cases h'
      rfl
  | keyword keyword =>
      cases h' with
      | keyword => rw [Mark.spelling_injective (String.toList_injective hword)]
      | var noKeyword => exact absurd hword.symm (noKeyword _ keyword)
  | var noKeyword =>
      subst hword
      cases h' with
      | keyword keyword => exact absurd rfl (noKeyword _ keyword)
      | var => rfl

/-- Only digits say a literal. -/
theorem Says.rule_eq {n : Nat} (h : Says rule word (.literal n)) : rule = .literal := by
  cases h
  rfl

section Reading

variable {p : Char → Bool} {lexeme : Lexeme} {width : Nat}

theorem length_le_takeWhile (hds : ∀ d ∈ ds, p d = true) (h : ds <+: cs) :
    ds.length ≤ (cs.takeWhile p).length := by
  obtain ⟨rest, rfl⟩ := h
  rw [List.takeWhile_append_of_pos hds, List.length_append]
  exact Nat.le_add_right _ _

theorem varTail_front (cs : List Char) : Lexeme.varTail cs <+: cs := by
  have hprimes : (cs.dropWhile isWord).takeWhile (· == '\'') <+: cs.dropWhile isWord :=
    List.takeWhile_prefix _
  have hfront := (List.prefix_append_right_inj (cs.takeWhile isWord)).mpr hprimes
  rwa [List.takeWhile_append_dropWhile] at hfront

/-- No front of a text that goes on like a name is longer than what continues a variable. -/
theorem length_le_varTail {primes : List Char} (hds : ∀ d ∈ ds, isWord d = true)
    (hprimes : ∀ d ∈ primes, d = '\'') (h : ds ++ primes <+: cs) :
    (ds ++ primes).length ≤ (Lexeme.varTail cs).length := by
  obtain ⟨rest, rfl⟩ := h
  cases primes with
  | nil =>
      have hword := length_le_takeWhile hds ⟨rest, rfl⟩
      rw [Lexeme.varTail, List.append_nil, List.length_append]
      omega
  | cons d primes =>
      obtain rfl := hprimes d List.mem_cons_self
      have hstopped : Stopped isWord ('\'' :: primes ++ rest) := by
        rintro c ⟨⟩
        decide
      have hprime : ('\'' :: primes).length ≤
          (('\'' :: primes ++ rest).takeWhile (· == '\'')).length :=
        length_le_takeWhile (fun d hd => beq_iff_eq.mpr (hprimes d hd)) ⟨rest, rfl⟩
      rw [Lexeme.varTail, List.append_assoc, takeWhile_append_of_stopped hds hstopped,
        dropWhile_append_of_stopped hds hstopped, List.length_append, List.length_append]
      omega

/-- The tail `ds` makes a longest word if no allowed tail in front of the text is longer. -/
theorem longest_cons (hallowed : rule.Allows (c :: ds)) (hfront : ds <+: cs)
    (hlongest : ∀ other, rule.Allows (c :: other) → other <+: cs → other.length ≤ ds.length) :
    rule.Longest (c :: cs) (c :: ds) := by
  refine ⟨hallowed, List.cons_prefix_cons.mpr ⟨rfl, hfront⟩, ?_⟩
  intro other hother hstart
  obtain ⟨d, other, rfl, -⟩ := hother.exists_cons
  obtain ⟨rfl, htail⟩ := List.cons_prefix_cons.mp hstart
  exact Nat.succ_le_succ (hlongest other hother htail)

theorem longest_literal (h : isDigit c = true) :
    literal.Longest (c :: cs) (c :: cs.takeWhile isDigit) := by
  refine longest_cons (.literal ?_) (List.takeWhile_prefix _) ?_
  · exact List.forall_mem_cons.mpr ⟨h, fun d hd => List.mem_takeWhile_imp hd⟩
  · intro other hother hfront
    cases hother with
    | literal digits => exact length_le_takeWhile (List.forall_mem_cons.mp digits).2 hfront

theorem longest_constr (h : isUpper c = true) :
    constr.Longest (c :: cs) (c :: cs.takeWhile isWord) := by
  refine longest_cons (.constr h fun d hd => List.mem_takeWhile_imp hd)
    (List.takeWhile_prefix _) ?_
  intro other hother hfront
  cases hother with
  | constr _ word => exact length_le_takeWhile word hfront

theorem longest_name (h : isLower c = true) :
    name.Longest (c :: cs) (c :: Lexeme.varTail cs) := by
  obtain ⟨word, primes, htail, hword, hprimes⟩ := exists_varTail_eq cs
  refine longest_cons ?_ (varTail_front cs) ?_
  · rw [htail]
    exact .name h hword hprimes
  · intro other hother hfront
    cases hother with
    | name _ word primes => exact length_le_varTail word primes hfront

/-- A mark that is a character by itself is spelled by it. -/
theorem spelling_of_ofChar? {m : Mark} (h : Mark.ofChar? c = some m) :
    m.isKeyword = false ∧ m.spelling.toList = [c] := by
  unfold Mark.ofChar? at h
  split at h <;> cases h <;> exact ⟨rfl, rfl⟩

/-- No symbol is longer than its first character, but for the arrow. -/
theorem symbol_tail (h : symbol.Allows (c :: ds)) : ds = [] ∨ c = '-' ∧ ds = ['>'] := by
  generalize hword : c :: ds = word at h
  obtain @⟨m, noKeyword⟩ := h
  cases m with
  | letWord | inWord => cases noKeyword
  | arrow =>
      cases hword
      exact .inr ⟨rfl, rfl⟩
  | lambda | opening | closing | plus | minus | star | slash | equals =>
      cases hword
      exact .inl rfl

theorem longest_arrow : symbol.Longest ('-' :: '>' :: cs) ['-', '>'] := by
  have harrow : symbol.Allows ['-', '>'] := .symbol (m := .arrow) rfl
  refine longest_cons harrow (List.cons_prefix_cons.mpr ⟨rfl, List.nil_prefix⟩) ?_
  intro other hother _
  obtain rfl | ⟨-, rfl⟩ := symbol_tail hother
  · exact Nat.zero_le _
  · exact Nat.le_refl _

theorem longest_symbol {m : Mark} (h : Mark.ofChar? c = some m)
    (halone : m = .minus → cs.head? ≠ some '>') : symbol.Longest (c :: cs) [c] := by
  obtain ⟨hkeyword, hspelling⟩ := spelling_of_ofChar? h
  refine longest_cons (hspelling ▸ .symbol hkeyword) List.nil_prefix ?_
  intro other hother hfront
  obtain rfl | ⟨rfl, rfl⟩ := symbol_tail hother
  · exact Nat.le_refl _
  · obtain ⟨rest, rfl⟩ := hfront
    cases h
    exact absurd rfl (halone rfl)

/-- A name says the keyword that it is read as, or the variable. -/
theorem says_ofWord (word : List Char) :
    ∃ token, Lexeme.ofWord word = .token token ∧ Says name word token := by
  rw [Lexeme.ofWord, Mark.ofWord?]
  split_ifs with hlet hin
  · exact ⟨_, rfl, hlet ▸ .keyword (m := .letWord) rfl⟩
  · exact ⟨_, rfl, hin ▸ .keyword (m := .inWord) rfl⟩
  · refine ⟨_, rfl, .var ?_⟩
    rintro m hm rfl
    cases m with
    | letWord => exact hlet rfl
    | inWord => exact hin rfl
    | lambda | opening | closing | plus | minus | star | slash | equals | arrow => cases hm

end Reading

end Rule

namespace Lexeme

variable {c : Char} {cs ds : List Char} {rule : Rule} {lexeme : Lexeme} {token : Token}
variable {width : Nat}

/-- What a lexeme is that says a token in so many characters: the token, unless it is a literal
of too many digits. -/
inductive Tells : Lexeme → Token → Nat → Prop
  | token {t : Token} {length : Nat} (short : ∀ n, t = .literal n → length ≤ digitLimit) :
      Tells (.token t) t length
  | tooLong {n length : Nat} (long : digitLimit < length) :
      Tells (.tooLong length) (.literal n) length

theorem Tells.unique {other : Lexeme} (h : lexeme.Tells token width)
    (h' : other.Tells token width) : lexeme = other := by
  cases h with
  | token short =>
      cases h' with
      | token => rfl
      | @tooLong n _ long => exact absurd (short n rfl) (Nat.not_le_of_lt long)
  | @tooLong n _ long =>
      cases h' with
      | token short => exact absurd (short n rfl) (Nat.not_le_of_lt long)
      | tooLong => rfl

/-- What is read off a text is the longest word of a rule in front of it. -/
theorem exists_longest_of_read (h : read? c cs = some (lexeme, width)) :
    ∃ (rule : Rule) (ds : List Char) (t : Token), rule.Longest (c :: cs) (c :: ds) ∧
      ds.length = width ∧ rule.Says (c :: ds) t ∧ lexeme.Tells t (width + 1) := by
  cases opens_of_read h with
  | arrow dash head =>
      obtain ⟨cs, rfl⟩ := List.head?_eq_some_iff.mp head
      obtain ⟨-, hspelling⟩ := Rule.spelling_of_ofChar? dash
      cases hspelling
      exact ⟨.symbol, ['>'], _, Rule.longest_arrow, rfl, .symbol .arrow, .token (by rintro n ⟨⟩)⟩
  | mark mark alone =>
      obtain ⟨-, hspelling⟩ := Rule.spelling_of_ofChar? mark
      exact ⟨.symbol, [], _, Rule.longest_symbol mark alone, rfl, hspelling ▸ .symbol _,
        .token (by rintro n ⟨⟩)⟩
  | digit digit =>
      refine ⟨.literal, _, _, Rule.longest_literal digit, rfl, .literal _, ?_⟩
      rw [ofDigits]
      split
      · next hshort => exact .token fun _ _ => hshort
      · next hlong => exact .tooLong (Nat.lt_of_not_le hlong)
  | upper upper =>
      exact ⟨.constr, _, _, Rule.longest_constr upper, rfl, .constr _, .token (by rintro n ⟨⟩)⟩
  | lower lower =>
      obtain ⟨t, hword, hsaid⟩ := Rule.says_ofWord (c :: varTail cs)
      refine ⟨.name, _, t, Rule.longest_name lower, rfl, hsaid, hword ▸ .token ?_⟩
      rintro n rfl
      cases hsaid.rule_eq

/-- A character that opens no lexeme is the first of no word. -/
theorem not_allows_of_read (h : read? c cs = none) (rule : Rule) (ds : List Char) :
    ¬ rule.Allows (c :: ds) := by
  intro hallows
  have hopens := hallows.opens
  cases rule with
  | symbol =>
      obtain ⟨m, hm⟩ := Option.isSome_iff_exists.mp hopens
      rw [read?, hm] at h
      simp only at h
      split at h <;> contradiction
  | literal =>
      rw [read?_of_isDigit hopens] at h
      contradiction
  | constr =>
      rw [read?_of_isUpper hopens] at h
      contradiction
  | name =>
      rw [read?_of_isLower hopens] at h
      contradiction

/-- The longest word of a rule is what is read. -/
theorem exists_read_of_longest (hlongest : rule.Longest (c :: cs) (c :: ds))
    (hsaid : rule.Says (c :: ds) token) :
    ∃ lexeme, read? c cs = some (lexeme, ds.length) ∧ lexeme.Tells token (ds.length + 1) := by
  cases hread : read? c cs with
  | none => exact absurd hlongest.allowed (not_allows_of_read hread rule ds)
  | some found =>
      obtain ⟨lexeme, width⟩ := found
      obtain ⟨rule', ds', t, hlongest', rfl, hsaid', htells⟩ := exists_longest_of_read hread
      obtain rfl := Rule.eq_of_opens hlongest.allowed.opens hlongest'.allowed.opens
      cases hlongest.unique hlongest'
      obtain rfl := hsaid.unique hsaid'
      exact ⟨lexeme, rfl, htells⟩

/-- What stands behind a lexeme may be cut off. -/
theorem read?_of_append {tail : List Char} (h : read? c (cs ++ tail) = some (lexeme, width))
    (hwidth : width ≤ cs.length) : read? c cs = some (lexeme, width) := by
  obtain ⟨rule, ds, t, hlongest, rfl, hsaid, htells⟩ := exists_longest_of_read h
  have hcut : c :: cs <+: c :: (cs ++ tail) :=
    List.cons_prefix_cons.mpr ⟨rfl, cs.prefix_append tail⟩
  have hfront : c :: ds <+: c :: cs :=
    List.prefix_of_prefix_length_le hlongest.front hcut (Nat.succ_le_succ hwidth)
  obtain ⟨other, hread, htells'⟩ := exists_read_of_longest (hlongest.of_front hfront hcut) hsaid
  rw [hread, htells.unique htells']

end Lexeme

end Contractum
