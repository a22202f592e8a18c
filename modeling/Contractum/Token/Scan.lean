import Contractum.Token.Basic
import Contractum.Text.Word

/-!
# Reading tokens off a text

Tokens are read from left to right, each the longest of its kind, with blanks, tabs and
line feeds between them. Reading ends with the end of the text or with the first
character that opens no token.

A literal of too many digits is read past, but it has no value and so is no token.
-/

namespace Contractum

open Text

/-- The characters that may stand between tokens. -/
def isGap (c : Char) : Bool :=
  c == ' ' || c == '\t' || c == '\n'

/-- What stands at some place in a text. -/
inductive Lexeme where
  | token (t : Token)
  | tooLong (digits : Nat)
deriving DecidableEq, Repr

namespace Lexeme

/-- The literal that a run of digits is, leading zeros counting toward the limit. -/
def ofDigits (digits : List Char) : Lexeme :=
  if digits.length ≤ digitLimit then token (.literal (digitsValue digits))
  else tooLong digits.length

/-- The keyword or the variable that a word is. -/
def ofWord (word : List Char) : Lexeme :=
  match Mark.ofWord? word with
  | some m => token (.mark m)
  | none => token (.var (String.ofList word))

/-- What continues a variable behind its first character: word characters, then primes. -/
def varTail (cs : List Char) : List Char :=
  cs.takeWhile isWord ++ (cs.dropWhile isWord).takeWhile (· == '\'')

/-- The lexeme that begins with character `c` before `cs`, and how many characters of `cs`
it covers. -/
def read? (c : Char) (cs : List Char) : Option (Lexeme × Nat) :=
  match Mark.ofChar? c with
  | some m =>
    if m = .minus && cs.head? == some '>' then some (token (.mark .arrow), 1)
    else some (token (.mark m), 0)
  | none =>
    if isDigit c then
      let tail := cs.takeWhile isDigit
      some (ofDigits (c :: tail), tail.length)
    else if isUpper c then
      let tail := cs.takeWhile isWord
      some (token (.constr (String.ofList (c :: tail))), tail.length)
    else if isLower c then
      let tail := varTail cs
      some (ofWord (c :: tail), tail.length)
    else none

/-- The lexemes by the characters that open them, with how much they cover of the rest. -/
inductive Opens (c : Char) (cs : List Char) : Lexeme → Nat → Prop
  | arrow (dash : Mark.ofChar? c = some .minus) (head : cs.head? = some '>') :
      Opens c cs (token (.mark .arrow)) 1
  | mark {m : Mark} (mark : Mark.ofChar? c = some m) (alone : m = .minus → cs.head? ≠ some '>') :
      Opens c cs (token (.mark m)) 0
  | digit (digit : isDigit c = true) :
      Opens c cs (ofDigits (c :: cs.takeWhile isDigit)) (cs.takeWhile isDigit).length
  | upper (upper : isUpper c = true) :
      Opens c cs (token (.constr (String.ofList (c :: cs.takeWhile isWord))))
        (cs.takeWhile isWord).length
  | lower (lower : isLower c = true) : Opens c cs (ofWord (c :: varTail cs)) (varTail cs).length

theorem opens_of_read {c : Char} {cs : List Char} {lexeme : Lexeme} {width : Nat}
    (h : read? c cs = some (lexeme, width)) : Opens c cs lexeme width := by
  rw [read?] at h
  split at h
  · next m hmark =>
      split at h
      · next harrow =>
          cases h
          rw [Bool.and_eq_true, decide_eq_true_eq, beq_iff_eq] at harrow
          exact .arrow (harrow.1 ▸ hmark) harrow.2
      · next halone =>
          cases h
          apply Opens.mark hmark
          intro hminus hhead
          exact halone (by rw [hminus, hhead]; rfl)
  · split at h
    · next hdigit =>
        cases h
        exact .digit hdigit
    · split at h
      · next hupper =>
          cases h
          exact .upper hupper
      · split at h
        · next hlower =>
            cases h
            exact .lower hlower
        · cases h

end Lexeme

/-- A lexeme with its place in the text. -/
inductive Item where
  | token (t : Located)
  | tooLong (digits stop : Nat)
deriving DecidableEq, Repr

/-- A lexeme put at its place. -/
def Lexeme.at (start stop : Nat) : Lexeme → Item
  | .token t => .token ⟨t, start, stop⟩
  | .tooLong digits => .tooLong digits stop

/-- Everything that stands in the text from place `pos` on. -/
def scan (pos : Nat) (cs : List Char) : List Item :=
  let start := pos + (cs.takeWhile isGap).length
  match _h : cs.dropWhile isGap with
  | [] => [.token ⟨.finish, start, start⟩]
  | c :: rest =>
    match Lexeme.read? c rest with
    | none => [.token ⟨.unknown c, start, start + 1⟩]
    | some (lexeme, width) =>
      let stop := start + 1 + width
      lexeme.at start stop :: scan stop (rest.drop width)
termination_by cs.length
decreasing_by
  have hle : (c :: rest).length ≤ cs.length := _h ▸ (List.dropWhile_sublist isGap).length_le
  simp only [List.length_drop, List.length_cons] at hle ⊢
  omega

variable {pos : Nat} {c : Char} {cs rest : List Char}

theorem scan_of_blank (h : cs.dropWhile isGap = []) :
    scan pos cs = [.token ⟨.finish, pos + (cs.takeWhile isGap).length,
      pos + (cs.takeWhile isGap).length⟩] := by
  rw [scan]
  split
  · rfl
  · next hcs => cases h.symm.trans hcs

theorem scan_of_unknown (h : cs.dropWhile isGap = c :: rest) (hread : Lexeme.read? c rest = none) :
    scan pos cs = [.token ⟨.unknown c, pos + (cs.takeWhile isGap).length,
      pos + (cs.takeWhile isGap).length + 1⟩] := by
  rw [scan]
  split
  · next hcs => cases h.symm.trans hcs
  · next hcs =>
      cases h.symm.trans hcs
      rw [hread]

theorem scan_of_read {lexeme : Lexeme} {width : Nat} (h : cs.dropWhile isGap = c :: rest)
    (hread : Lexeme.read? c rest = some (lexeme, width)) :
    scan pos cs =
      lexeme.at (pos + (cs.takeWhile isGap).length)
          (pos + (cs.takeWhile isGap).length + 1 + width) ::
        scan (pos + (cs.takeWhile isGap).length + 1 + width) (rest.drop width) := by
  rw [scan]
  split
  · next hcs => cases h.symm.trans hcs
  · next hcs =>
      cases h.symm.trans hcs
      rw [hread]

end Contractum
