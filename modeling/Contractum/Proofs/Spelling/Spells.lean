import Contractum.Proofs.Spelling.Lexical

/-!
# Texts that spell tokens

What a text says depends on its places only by the places: without them, the lexemes of a
text are determined from left to right by its characters. A text spells a list of tokens
when it reads as these tokens whatever follows it, as long as that begins with a gap or a
closing parenthesis, which no token goes on with.
-/

namespace Contractum

open Text

/-- An item without its place. -/
def Item.lexeme : Item → Lexeme
  | .token t => .token t.token
  | .tooLong digits _ => .tooLong digits

@[simp] theorem Lexeme.lexeme_at (start stop : Nat) (lexeme : Lexeme) :
    (lexeme.at start stop).lexeme = lexeme := by
  cases lexeme <;> rfl

/-- What stands in a text, without places. -/
def lexemes (cs : List Char) : List Lexeme :=
  (scan 0 cs).map Item.lexeme

variable {c : Char} {cs ds rest : List Char} {ts us : List Token} {width : Nat} {lexeme : Lexeme}

theorem map_lexeme_scan (pos : Nat) (cs : List Char) :
    (scan pos cs).map Item.lexeme = lexemes cs := by
  suffices h : ∀ pos', (scan pos cs).map Item.lexeme = (scan pos' cs).map Item.lexeme from h 0
  induction pos, cs using scan.induct with
  | case1 pos cs hblank =>
      intro pos'
      rw [scan_of_blank hblank, scan_of_blank hblank]
      rfl
  | case2 pos cs c rest hcs hread =>
      intro pos'
      rw [scan_of_unknown hcs hread, scan_of_unknown hcs hread]
      rfl
  | case3 pos cs start c rest hcs lexeme width hread stop ih =>
      intro pos'
      rw [scan_of_read hcs hread, scan_of_read hcs hread, List.map_cons, List.map_cons,
        Lexeme.lexeme_at, Lexeme.lexeme_at]
      exact congrArg _ (ih _)

/-- Gaps say nothing. -/
theorem lexemes_dropWhile (cs : List Char) : lexemes (cs.dropWhile isGap) = lexemes cs := by
  have hdrop := (stopped_dropWhile isGap cs).dropWhile
  cases hcs : cs.dropWhile isGap with
  | nil =>
      rw [lexemes, lexemes, scan_of_blank hcs, scan_of_blank rfl]
      rfl
  | cons c rest =>
      rw [hcs] at hdrop
      cases hread : Lexeme.read? c rest with
      | none =>
          rw [lexemes, lexemes, scan_of_unknown hcs hread, scan_of_unknown hdrop hread]
          rfl
      | some found =>
          obtain ⟨lexeme, width⟩ := found
          rw [lexemes, lexemes, scan_of_read hcs hread, scan_of_read hdrop hread, List.map_cons,
            List.map_cons, map_lexeme_scan, map_lexeme_scan, Lexeme.lexeme_at, Lexeme.lexeme_at]

theorem lexemes_nil : lexemes [] = [.token .finish] := by
  rw [lexemes, scan_of_blank rfl]
  rfl

theorem lexemes_gap (h : isGap c = true) : lexemes (c :: cs) = lexemes cs := by
  rw [← lexemes_dropWhile, List.dropWhile_cons_of_pos h, lexemes_dropWhile]

theorem dropWhile_isGap_cons (hgap : isGap c = false) : (c :: cs).dropWhile isGap = c :: cs := by
  apply List.dropWhile_cons_of_neg
  rw [hgap]
  decide

theorem lexemes_of_read (hgap : isGap c = false)
    (hread : Lexeme.read? c cs = some (lexeme, width)) :
    lexemes (c :: cs) = lexeme :: lexemes (cs.drop width) := by
  rw [lexemes, scan_of_read (dropWhile_isGap_cons hgap) hread, List.map_cons, map_lexeme_scan,
    Lexeme.lexeme_at]

theorem lexemes_of_unknown (hgap : isGap c = false) (hread : Lexeme.read? c cs = none) :
    lexemes (c :: cs) = [.token (.unknown c)] := by
  rw [lexemes, scan_of_unknown (dropWhile_isGap_cons hgap) hread]
  rfl

/-- The characters that no token goes on with: gaps and the closing parenthesis. -/
def isBreak (c : Char) : Bool :=
  isGap c || c == ')'

/-- Whether a text ends or breaks off what stands before it. -/
def Breaks (cs : List Char) : Prop :=
  ∀ c ∈ cs.head?, isBreak c = true

/-- A text spells tokens when it reads as them in front of every break. -/
def Spells (cs : List Char) (ts : List Token) : Prop :=
  ∀ rest, Breaks rest → lexemes (cs ++ rest) = ts.map .token ++ lexemes rest

theorem isBreak_cases (h : isBreak c = true) : c = ' ' ∨ c = '\t' ∨ c = '\n' ∨ c = ')' := by
  simpa [isBreak, isGap, or_assoc] using h

/-- A class of characters without breaks stops at every break. -/
theorem Breaks.stopped {p : Char → Bool} (h : Breaks rest) (hspace : p ' ' = false)
    (htab : p '\t' = false) (hfeed : p '\n' = false) (hclosing : p ')' = false) :
    Stopped p rest := by
  intro c hc
  rcases isBreak_cases (h c hc) with rfl | rfl | rfl | rfl
  · exact hspace
  · exact htab
  · exact hfeed
  · exact hclosing

theorem breaks_nil : Breaks [] := by
  rintro c ⟨⟩

theorem breaks_cons (h : isBreak c = true) : Breaks (c :: cs) := by
  rintro d ⟨⟩
  exact h

/-- A token spelled in full is read whatever break follows. -/
theorem spells_of_read {token : Token} (hgap : isGap c = false)
    (hread : ∀ rest, Breaks rest → Lexeme.read? c (cs ++ rest) = some (.token token, cs.length)) :
    Spells (c :: cs) [token] := by
  intro rest hrest
  rw [List.cons_append, lexemes_of_read hgap (hread rest hrest), List.drop_left]
  rfl

theorem Spells.append_gap (hcs : Spells cs ts) (hds : Spells ds us) :
    Spells (cs ++ ' ' :: ds) (ts ++ us) := by
  intro rest hrest
  rw [List.append_assoc, List.cons_append, hcs _ (breaks_cons rfl), lexemes_gap rfl, hds rest hrest,
    List.map_append, List.append_assoc]

/-- A mark that no character can lengthen is read before any text. -/
theorem Spells.cons_mark {m : Mark} (hcs : Spells cs ts) (hmark : Mark.ofChar? c = some m)
    (hminus : m ≠ .minus) (hgap : isGap c = false) : Spells (c :: cs) (.mark m :: ts) := by
  intro rest hrest
  have hread : Lexeme.read? c (cs ++ rest) = some (.token (.mark m), 0) := by
    simp [Lexeme.read?, hmark, hminus]
  rw [List.cons_append, lexemes_of_read hgap hread, List.drop_zero, hcs rest hrest]
  rfl

theorem Spells.parens (hcs : Spells cs ts) :
    Spells ('(' :: (cs ++ [')'])) (.mark .opening :: (ts ++ [.mark .closing])) := by
  have hclosed : Spells (cs ++ [')']) (ts ++ [.mark .closing]) := by
    intro rest hrest
    have hread : Lexeme.read? ')' rest = some (.token (.mark .closing), 0) := rfl
    rw [List.append_assoc, List.singleton_append, hcs _ (breaks_cons rfl),
      lexemes_of_read rfl hread, List.map_append, List.append_assoc]
    rfl
  exact hclosed.cons_mark rfl (by decide) rfl

theorem Lexeme.read?_minus (h : cs.head? ≠ some '>') :
    Lexeme.read? '-' cs = some (.token (.mark .minus), 0) := by
  simp [Lexeme.read?, Mark.ofChar?, h]

/-- A minus sign is no arrow unless what follows begins with no token. -/
theorem Spells.cons_minus {token : Token} (hcs : Spells cs (token :: ts))
    (htoken : token ≠ .unknown '>') : Spells ('-' :: cs) (.mark .minus :: token :: ts) := by
  have hhead : cs.head? ≠ some '>' := by
    intro hhead
    obtain ⟨cs, rfl⟩ : ∃ ds, cs = '>' :: ds := by
      cases cs with
      | nil => cases hhead
      | cons c cs => exact ⟨cs, by rw [Option.some.inj hhead]⟩
    have hlexemes := hcs [] breaks_nil
    rw [List.cons_append, lexemes_of_unknown rfl rfl] at hlexemes
    injection hlexemes with htokens
    injection htokens with htokens
    exact htoken htokens.symm
  intro rest hrest
  have hgreater : (cs ++ rest).head? ≠ some '>' := by
    cases cs with
    | nil =>
        intro h
        exact absurd (hrest '>' h) (by decide)
    | cons c cs => exact hhead
  rw [List.cons_append, lexemes_of_read rfl (Lexeme.read?_minus hgreater), List.drop_zero,
    hcs rest hrest]
  rfl

/-- A class of characters without gaps has no gap in it. -/
theorem isGap_eq_false {p : Char → Bool} (hspace : p ' ' = false) (htab : p '\t' = false)
    (hfeed : p '\n' = false) (h : p c = true) : isGap c = false := by
  rw [Bool.eq_false_iff]
  intro hgap
  rcases isBreak_cases (c := c) (by rw [isBreak, hgap]; rfl) with rfl | rfl | rfl | rfl
  · exact Bool.false_ne_true (hspace.symm.trans h)
  · exact Bool.false_ne_true (htab.symm.trans h)
  · exact Bool.false_ne_true (hfeed.symm.trans h)
  · exact absurd hgap (by decide)

theorem varTail_append_of_breaks (h : Lexeme.varTail cs = cs) (hrest : Breaks rest) :
    Lexeme.varTail (cs ++ rest) = cs := by
  obtain ⟨word, primes, rfl, hword, hprimes⟩ := varTail_eq_self_iff.mp h
  exact varTail_append hword hprimes (hrest.stopped rfl rfl rfl rfl) (hrest.stopped rfl rfl rfl rfl)

/-- What begins like a variable and is one in full is a keyword or a variable. -/
theorem spells_word {token : Token} (hlower : isLower c = true) (htail : Lexeme.varTail cs = cs)
    (hword : Lexeme.ofWord (c :: cs) = .token token) : Spells (c :: cs) [token] := by
  apply spells_of_read (isGap_eq_false rfl rfl rfl hlower)
  intro rest hrest
  rw [Lexeme.read?_of_isLower hlower, varTail_append_of_breaks htail hrest, hword]

theorem spells_variable {name : String} (h : isVariable name = true) :
    Spells name.toList [.var name] := by
  obtain ⟨c, cs, hname, hlower, htail, hword⟩ := isVariable_iff.mp h
  rw [hname]
  apply spells_word hlower htail
  rw [Lexeme.ofWord, hword, ← hname, String.ofList_toList]

theorem spells_constructor {name : String} (h : isConstructor name = true) :
    Spells name.toList [.constr name] := by
  obtain ⟨c, cs, hname, hupper, hword⟩ := isConstructor_iff.mp h
  rw [hname]
  apply spells_of_read (isGap_eq_false rfl rfl rfl hupper)
  intro rest hrest
  rw [Lexeme.read?_of_isUpper hupper,
    takeWhile_append_of_stopped hword (hrest.stopped rfl rfl rfl rfl), ← hname,
    String.ofList_toList]

/-- Every mark is read back from its spelling. -/
theorem spells_mark (m : Mark) : Spells m.spelling.toList [.mark m] := by
  cases m with
  | letWord => exact spells_word rfl rfl rfl
  | inWord => exact spells_word rfl rfl rfl
  | minus =>
      apply spells_of_read rfl
      intro rest hrest
      apply Lexeme.read?_minus
      intro h
      exact absurd (hrest '>' h) (by decide)
  | lambda | opening | closing | plus | star | slash | equals | arrow =>
      apply spells_of_read rfl
      intro rest _
      rfl

/-- Items without literals of too many digits are tokens at places. -/
theorem exists_located {items : List Item} (h : items.map Item.lexeme = ts.map .token) :
    ∃ ls : List Located, items = ls.map .token ∧ ls.map (·.token) = ts := by
  induction ts generalizing items with
  | nil => exact ⟨[], List.map_eq_nil_iff.mp h, rfl⟩
  | cons token ts ih =>
      obtain ⟨item, items, rfl, hitem, hitems⟩ := List.map_eq_cons_iff.mp h
      obtain ⟨ls, rfl, rfl⟩ := ih hitems
      cases item with
      | token t =>
          injection hitem with htoken
          exact ⟨t :: ls, rfl, by rw [List.map_cons, htoken]⟩
      | tooLong => cases hitem

end Contractum
