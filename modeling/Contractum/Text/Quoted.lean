import Contractum.Text.Printable

/-!
# Quoted text

A quoted text shows a text on one line between two quotation marks. The marks are
single unless the text holds a single mark and no double one, and what could be
misread (the mark itself, the backslash, characters that are not printable) is
written as an escape.
-/

namespace Contractum.Text

/-- The lower-case hexadecimal digit of a number below sixteen. -/
def hexDigit (n : Nat) : Char :=
  if n < 10 then Char.ofNat (48 + n) else Char.ofNat (87 + n)

/-- The last `width` hexadecimal digits of a number, the first weighing most. -/
def hexDigits : Nat → Nat → List Char
  | 0, _ => []
  | width + 1, n => hexDigits width (n / 16) ++ [hexDigit (n % 16)]

/-- The quotation mark of a text: double only where it saves an escape. -/
def quoteMark (cs : List Char) : Char :=
  if cs.contains '\'' && !cs.contains '"' then '"' else '\''

/-- One character inside quotation marks `mark`, where some characters show themselves. -/
def escape (shown : Char → Bool) (mark c : Char) : List Char :=
  if c = mark || c = '\\' then ['\\', c]
  else if c = '\n' then ['\\', 'n']
  else if c = '\r' then ['\\', 'r']
  else if c = '\t' then ['\\', 't']
  else if shown c then [c]
  else if c.toNat < 0x100 then '\\' :: 'x' :: hexDigits 2 c.toNat
  else if c.toNat < 0x10000 then '\\' :: 'u' :: hexDigits 4 c.toNat
  else '\\' :: 'U' :: hexDigits 8 c.toNat

/-- A text between quotation marks, in which some characters show themselves. -/
def quoteWith (shown : Char → Bool) (cs : List Char) : List Char :=
  let mark := quoteMark cs
  mark :: cs.flatMap (escape shown mark) ++ [mark]

/-- The text between quotation marks, on one line and in printable characters only. -/
def quote (s : String) : String :=
  String.ofList (quoteWith isPrintable s.toList)

/-- The characters that are both printable and ASCII. -/
def isPlain (c : Char) : Bool :=
  isPrintable c && c.toNat < 128

@[simp] theorem hexDigits_length (width n : Nat) : (hexDigits width n).length = width := by
  induction width generalizing n with
  | zero => rfl
  | succ width ih => simp [hexDigits, ih]

end Contractum.Text
