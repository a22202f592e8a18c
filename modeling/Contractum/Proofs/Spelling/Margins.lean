import Contractum.Proofs.Grammar.Acceptance
import Contractum.Proofs.Spelling.Spells
import Contractum.Proofs.Spelling.Words
import Contractum.Text.Blank

/-!
# Blanks around a text

No token holds a blank. The blanks at the two ends of a text that is read as a whole are
therefore gaps, and without them it is read as the same tokens. A term stays the same term when
its text is stripped.
-/

namespace Contractum

open Text

variable {c : Char} {cs front tail word : List Char} {rule : Rule}

/-- The code points of the blanks. -/
def blankCodes : List Nat :=
  [9, 10, 11, 12, 13, 28, 29, 30, 31, 32, 0x85, 0xA0, 0x1680, 0x2000, 0x2001, 0x2002, 0x2003,
    0x2004, 0x2005, 0x2006, 0x2007, 0x2008, 0x2009, 0x200A, 0x2028, 0x2029, 0x202F, 0x205F, 0x3000]

theorem toNat_mem_blankCodes (h : isBlank c = true) : c.toNat ∈ blankCodes := by
  simp only [isBlank, Bool.or_eq_true, Bool.and_eq_true, decide_eq_true_eq, beq_iff_eq] at h
  simp only [blankCodes, List.mem_cons, List.not_mem_nil, or_false]
  omega

/-- A class of characters without the blanks has no blank in it. -/
theorem isBlank_eq_false {p : Char → Bool} (hp : ∀ n ∈ blankCodes, p (Char.ofNat n) = false)
    (h : p c = true) : isBlank c = false := by
  rw [Bool.eq_false_iff]
  intro hblank
  have hc := hp c.toNat (toNat_mem_blankCodes hblank)
  rw [Char.ofNat_toNat, h] at hc
  contradiction

/-- No range of letters and numbers beyond ASCII holds a blank. -/
theorem blankCodes_outside_wordRanges :
    (wordRanges.toList.all fun range =>
      blankCodes.all fun n => Nat.blt n range.1 || Nat.blt range.2 n) = true := by
  decide +kernel

theorem isBlank_of_isWord (h : isWord c = true) : isBlank c = false := by
  rw [isWord] at h
  split at h
  · exact isBlank_eq_false (p := fun c => isUpper c || isLower c || ('0' ≤ c && c ≤ '9'))
      (by decide +kernel) h
  · rw [Bool.eq_false_iff]
    intro hblank
    obtain ⟨range, hrange, hle, hge⟩ := inRanges_iff.mp h
    have houtside := List.all_eq_true.mp blankCodes_outside_wordRanges range
      (Array.mem_toList_iff.mpr hrange)
    have hcode := List.all_eq_true.mp houtside c.toNat (toNat_mem_blankCodes hblank)
    rw [Bool.or_eq_true, Nat.blt_eq, Nat.blt_eq] at hcode
    omega

theorem Rule.isBlank_of_opens (rule : Rule) (h : rule.opens c = true) : isBlank c = false := by
  cases rule <;> exact isBlank_eq_false (by decide +kernel) h

theorem isBlank_of_isGap (h : isGap c = true) : isBlank c = true := by
  simp only [isGap, Bool.or_eq_true, beq_iff_eq] at h
  rcases h with (rfl | rfl) | rfl <;> rfl

/-- No word holds a blank. -/
theorem Rule.Allows.isBlank_eq_false (h : rule.Allows word) : ∀ d ∈ word, isBlank d = false := by
  cases h with
  | @symbol m =>
      have hsymbol : m.spelling.toList.all (fun d => !isBlank d) = true := by
        cases m <;> decide
      intro d hd
      exact (Bool.not_eq_true' _).mp (List.all_eq_true.mp hsymbol d hd)
  | literal digits =>
      intro d hd
      exact Rule.isBlank_of_opens .literal (digits d hd)
  | constr upper word =>
      exact List.forall_mem_cons.mpr ⟨Rule.isBlank_of_opens .constr upper,
        fun d hd => isBlank_of_isWord (word d hd)⟩
  | name lower word primes =>
      rw [List.forall_mem_cons, List.forall_mem_append]
      refine ⟨Rule.isBlank_of_opens .name lower,
        fun d hd => isBlank_of_isWord (word d hd), fun d hd => ?_⟩
      rw [primes d hd]
      decide

/-- Whether a text is read to its end, with a token wherever something stands. -/
def Readable (cs : List Char) : Prop :=
  ∀ lexeme ∈ lexemes cs, ∃ t : Token, lexeme = .token t ∧ ∀ c, t ≠ .unknown c

theorem Readable.congr {ds : List Char} (h : Readable cs) (heq : lexemes cs = lexemes ds) :
    Readable ds :=
  fun lexeme hlexeme => h lexeme (heq ▸ hlexeme)

theorem Readable.behind {ds : List Char} {lexeme : Lexeme} (h : Readable cs)
    (heq : lexemes cs = lexeme :: lexemes ds) : Readable ds :=
  fun other hother => h other (heq ▸ List.mem_cons_of_mem lexeme hother)

theorem Readable.ne_unknown (h : Readable cs) (c : Char) : lexemes cs ≠ [.token (.unknown c)] := by
  intro hunknown
  obtain ⟨t, ht, hknown⟩ := h _ (hunknown ▸ List.mem_singleton_self _)
  cases ht
  exact hknown c rfl

/-- What stands at the front of a text that is read to its end, and does not begin with a gap. -/
theorem Readable.exists_longest (h : Readable (c :: cs)) (hgap : isGap c = false) :
    ∃ rule word token, Rule.Longest rule (c :: cs) word ∧ rule.Says word token ∧
      ∃ lexeme tail, lexemes (c :: cs) = lexeme :: tail ∧ lexeme.Tells token word.length := by
  cases hread : Lexeme.read? c cs with
  | none => exact absurd (lexemes_of_unknown hgap hread) (h.ne_unknown c)
  | some found =>
      obtain ⟨lexeme, width⟩ := found
      obtain ⟨rule, ds, t, hlongest, rfl, hsaid, htells⟩ := Lexeme.exists_longest_of_read hread
      exact ⟨rule, _, t, hlongest, hsaid, lexeme, _, lexemes_of_read hgap hread, htells⟩

/-- A blank at which something readable goes on is a gap. -/
theorem Readable.isGap_of_isBlank (h : Readable (c :: cs)) (hblank : isBlank c = true) :
    isGap c = true := by
  by_contra hgap
  rw [Bool.not_eq_true] at hgap
  have hread : Lexeme.read? c cs = none := by
    cases hread : Lexeme.read? c cs with
    | none => rfl
    | some found =>
        obtain ⟨rule, ds, t, hlongest, -⟩ := Lexeme.exists_longest_of_read hread
        rw [rule.isBlank_of_opens hlongest.allowed.opens] at hblank
        contradiction
  exact h.ne_unknown c (lexemes_of_unknown hgap hread)

/-- Blanks in front of a text that is read to its end say nothing. -/
theorem lexemes_blank_append (hblank : ∀ c ∈ front, isBlank c = true)
    (h : Readable (front ++ cs)) : lexemes (front ++ cs) = lexemes cs := by
  induction front with
  | nil => rfl
  | cons c front ih =>
      obtain ⟨hc, hfront⟩ := List.forall_mem_cons.mp hblank
      have hgap : lexemes (c :: (front ++ cs)) = lexemes (front ++ cs) :=
        lexemes_gap (h.isGap_of_isBlank hc)
      rw [List.cons_append, hgap]
      exact ih hfront (h.congr hgap)

/-- A word in front of a text with blanks behind it ends before them. -/
theorem Rule.Longest.length_le_of_blank (h : rule.Longest (front ++ tail) word)
    (hblank : ∀ c ∈ tail, isBlank c = true) : word.length ≤ front.length := by
  by_contra hlong
  have hle := h.front.length_le
  cases tail with
  | nil => simp at hle; omega
  | cons d tail =>
      have hsplit : front ++ [d] <+: front ++ d :: tail :=
        (List.prefix_append_right_inj front).mpr ⟨tail, rfl⟩
      have hinside : front ++ [d] <+: word :=
        List.prefix_of_prefix_length_le hsplit h.front (by simp; omega)
      have hmem : d ∈ word := hinside.subset (List.mem_append_right _ List.mem_cons_self)
      have hnoBlank := h.allowed.isBlank_eq_false d hmem
      rw [hblank d List.mem_cons_self] at hnoBlank
      contradiction

/-- What is read in front of blanks is read without them. -/
theorem Readable.exists_read (h : Readable (c :: (cs ++ tail))) (hgap : isGap c = false)
    (hblank : ∀ c ∈ tail, isBlank c = true) :
    ∃ lexeme width, Lexeme.read? c cs = some (lexeme, width) ∧
      lexemes (c :: (cs ++ tail)) = lexeme :: lexemes (cs.drop width ++ tail) := by
  cases hread : Lexeme.read? c (cs ++ tail) with
  | none => exact absurd (lexemes_of_unknown hgap hread) (h.ne_unknown c)
  | some found =>
      obtain ⟨lexeme, width⟩ := found
      obtain ⟨rule, ds, t, hlongest, rfl, -⟩ := Lexeme.exists_longest_of_read hread
      have hlength : (c :: ds).length ≤ (c :: cs).length := hlongest.length_le_of_blank hblank
      have hwidth : ds.length ≤ cs.length := Nat.le_of_succ_le_succ hlength
      refine ⟨lexeme, ds.length, Lexeme.read?_of_append hread hwidth, ?_⟩
      rw [lexemes_of_read hgap hread, List.drop_append_of_le_length hwidth]

/-- Blanks behind a text that is read to its end say nothing. -/
theorem lexemes_append_blank (hblank : ∀ c ∈ tail, isBlank c = true)
    (h : Readable (front ++ tail)) : lexemes (front ++ tail) = lexemes front := by
  induction hlength : front.length using Nat.strong_induction_on generalizing front with
  | h n ih =>
      have hdrop : (front ++ tail).dropWhile isGap = if (front.dropWhile isGap).isEmpty then
          tail.dropWhile isGap else front.dropWhile isGap ++ tail :=
        List.dropWhile_append
      cases hfront : front.dropWhile isGap with
      | nil =>
          rw [hfront, List.isEmpty_nil, if_pos rfl] at hdrop
          have htail : lexemes (front ++ tail) = lexemes (tail ++ []) := by
            rw [← lexemes_dropWhile, hdrop, lexemes_dropWhile, List.append_nil]
          rw [htail, lexemes_blank_append hblank (h.congr htail), ← lexemes_dropWhile front, hfront]
      | cons c rest =>
          rw [hfront, List.isEmpty_cons, if_neg Bool.false_ne_true] at hdrop
          have hgap : isGap c = false := by
            apply stopped_dropWhile isGap front
            rw [hfront]
            rfl
          have hwhole : lexemes (front ++ tail) = lexemes (c :: (rest ++ tail)) := by
            rw [← lexemes_dropWhile, hdrop, List.cons_append]
          have hreadable := h.congr hwhole
          obtain ⟨lexeme, width, hread, hlexemes⟩ := hreadable.exists_read hgap hblank
          have hshorter : (rest.drop width).length < n := by
            have hle := (List.dropWhile_sublist isGap (l := front)).length_le
            rw [hfront, List.length_cons] at hle
            rw [List.length_drop]
            omega
          rw [hwhole, hlexemes, ih _ hshorter (hreadable.behind hlexemes) rfl,
            ← lexemes_dropWhile front, hfront, lexemes_of_read hgap hread]

theorem exists_dropWhile_eq (p : Char → Bool) (cs : List Char) :
    ∃ tail, cs.dropWhile p = trimWhile p cs ++ tail ∧ ∀ c ∈ tail, p c = true := by
  refine ⟨((cs.dropWhile p).reverse.takeWhile p).reverse, ?_, fun c hc => ?_⟩
  · rw [trimWhile, ← List.reverse_append, List.takeWhile_append_dropWhile, List.reverse_reverse]
  · exact List.mem_takeWhile_imp (List.mem_reverse.mp hc)

/-- What is trimmed stands between the characters that are trimmed off. -/
theorem exists_trimWhile_eq (p : Char → Bool) (cs : List Char) :
    ∃ front tail, cs = front ++ (trimWhile p cs ++ tail) ∧ (∀ c ∈ front, p c = true) ∧
      ∀ c ∈ tail, p c = true := by
  obtain ⟨tail, hdrop, htail⟩ := exists_dropWhile_eq p cs
  refine ⟨cs.takeWhile p, tail, ?_, fun c hc => List.mem_takeWhile_imp hc, htail⟩
  rw [← hdrop, List.takeWhile_append_dropWhile]

/-- The first character of what is trimmed is none to be trimmed off. -/
theorem stopped_trimWhile (p : Char → Bool) (cs : List Char) : Stopped p (trimWhile p cs) := by
  obtain ⟨tail, hdrop, -⟩ := exists_dropWhile_eq p cs
  intro c hc
  apply stopped_dropWhile p cs
  rw [hdrop, List.head?_append, hc]
  rfl

theorem trimWhile_cons {p : Char → Bool} (h : p c = true) (cs : List Char) :
    trimWhile p (c :: cs) = trimWhile p cs := by
  rw [trimWhile, List.dropWhile_cons_of_pos h]
  rfl

/-- Nothing is trimmed off where neither end is to be. -/
theorem trimWhile_eq_self {p : Char → Bool} (hfront : Stopped p cs)
    (hback : Stopped p cs.reverse) : trimWhile p cs = cs := by
  rw [trimWhile, hfront.dropWhile, hback.dropWhile, List.reverse_reverse]

/-- A text that is read to its end is read the same without the blanks at its ends. -/
theorem lexemes_trimWhile (h : Readable cs) : lexemes (trimWhile isBlank cs) = lexemes cs := by
  obtain ⟨front, tail, hcs, hfront, htail⟩ := exists_trimWhile_eq isBlank cs
  have hinner : lexemes cs = lexemes (trimWhile isBlank cs ++ tail) := by
    have happend := lexemes_blank_append hfront (hcs ▸ h)
    rwa [← hcs] at happend
  rw [hinner, lexemes_append_blank htail (h.congr hinner)]

variable {text : String} {t : Term}

/-- A text is a term by its lexemes, wherever they stand in it. -/
theorem Term.parse_eq_ok_iff_lexemes :
    parse text = .ok t ↔ ∃ ts u, lexemes text.toList = (ts ++ [.finish]).map .token ∧
      Derives .term ts u ∧ u.ScopedIn [] ∧ u.numbered = t := by
  rw [parse_eq_ok_iff]
  constructor
  · rintro ⟨items, ts, u, hitems, htokens, hrest⟩
    refine ⟨ts, u, ?_, hrest⟩
    rw [lexemes, Token.ofText_eq_ok_iff.mp hitems, ← htokens, List.map_map, List.map_map]
    rfl
  · rintro ⟨ts, u, hlexemes, hrest⟩
    obtain ⟨items, hscan, htokens⟩ := exists_located hlexemes
    exact ⟨items, ts, u, Token.ofText_eq_ok_iff.mpr hscan, htokens, hrest⟩

/-- The text of a term is read to its end. -/
theorem Readable.of_derives {ts : List Token} {tier : Tier} (h : Derives tier ts t)
    (hlexemes : lexemes cs = (ts ++ [Token.finish]).map .token) : Readable cs := by
  intro lexeme hlexeme
  rw [hlexemes, List.mem_map] at hlexeme
  obtain ⟨token, htoken, rfl⟩ := hlexeme
  refine ⟨token, rfl, ?_⟩
  rintro c rfl
  rcases List.mem_append.mp htoken with htoken | htoken
  · cases h.not_ends _ htoken
  · cases List.mem_singleton.mp htoken

/-- A term stays the same term when its text is stripped. -/
theorem Term.parse_strip (h : parse text = .ok t) : parse (strip text) = .ok t := by
  obtain ⟨ts, u, hlexemes, hderives, hrest⟩ := parse_eq_ok_iff_lexemes.mp h
  refine parse_eq_ok_iff_lexemes.mpr ⟨ts, u, ?_, hderives, hrest⟩
  rw [strip, String.toList_ofList, lexemes_trimWhile (.of_derives hderives hlexemes), hlexemes]

end Contractum
