import Contractum.Text.Blank
import Contractum.Text.Digit

/-!
# Integers as text

Integers are unbounded, their texts are not: a text of more than `digitLimit`
decimal digits is neither read nor written. Numbers entered by a user may carry a
sign, blanks around them and single underscores between their digits.
-/

namespace Contractum.Text

/-- The greatest number of decimal digits that a number is read from or written with. -/
def digitLimit : Nat := 4300

/-- The least number whose text has more than `digitLimit` digits. -/
def digitBound : Nat := Nat.pow 10 digitLimit

/-- A number can be written when its digits stay within the limit. -/
def isWritable (n : Int) : Bool :=
  n.natAbs < digitBound

/-- The decimal digits of a natural number, without leading zeros. -/
def naturalText (n : Nat) : String :=
  String.ofList (Nat.toDigits 10 n)

/-- The decimal digits of an integer, behind a sign when it is negative. -/
def integerText : Int → String
  | .ofNat n => naturalText n
  | .negSucc n => "-" ++ naturalText (n + 1)

/-- Drops the underscores that stand alone between two digits, and refuses a text
that holds anything else than digits and such underscores. -/
def groupedDigits? : List Char → Option (List Char)
  | [] => none
  | [c] => if isDigit c then some [c] else none
  | c :: '_' :: rest => if isDigit c then (groupedDigits? rest).map (c :: ·) else none
  | c :: rest => if isDigit c then (groupedDigits? rest).map (c :: ·) else none

/-- The reasons why a text is no number. -/
inductive NumberFault where
  | notANumber
  | tooLong (digits : Nat)
deriving DecidableEq, Repr

/-- The blanks that may stand around an entered number. The separators of files, groups,
records and units are none. -/
def isMargin (c : Char) : Bool :=
  isBlank c && !(28 ≤ c.toNat && c.toNat ≤ 31)

/-- The characters that the body of an entered number is made of. -/
def isBody (c : Char) : Bool :=
  isDigit c || c == '_'

/-- The sign that a text begins with, true for minus, and what follows it. -/
def readSign : List Char → Bool × List Char
  | '+' :: cs => (false, cs)
  | '-' :: cs => (true, cs)
  | cs => (false, cs)

/-- The number that a user entered: blanks, an optional sign, digits in groups. The digits
are counted before what stands behind them is looked at. -/
def readInt (s : String) : Except NumberFault Int :=
  let (negative, cs) := readSign (s.toList.dropWhile isMargin)
  match groupedDigits? (cs.takeWhile isBody) with
  | none => .error .notANumber
  | some ds =>
    if ds.length ≤ digitLimit then
      if (cs.dropWhile isBody).all isMargin then
        .ok (if negative then -(digitsValue ds : Int) else (digitsValue ds : Int))
      else .error .notANumber
    else .error (.tooLong ds.length)

end Contractum.Text
