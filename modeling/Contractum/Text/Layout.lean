import Contractum.Text.Integer

/-!
# Layouts

A layout says how a text is fitted into a field: it is cut to a precision, then padded to a
width. A text that is as wide as its field is not padded, and one that is wider is not cut
for it.

Layouts are written as short codes, in which options that only numbers have can be named
too. Texts refuse them, each with a fault of its own.
-/

namespace Contractum.Text

/-- The side on which a text stands in its field. -/
inductive Side where
  | left
  | right
  | centre
deriving DecidableEq, Repr

/-- How a text is fitted into a field. -/
structure Layout where
  fill : Char := ' '
  side : Side := .left
  width : Nat := 0
  precision : Option Nat := none
deriving DecidableEq, Repr

/-- The reasons why a code is no layout of a text. -/
inductive LayoutFault where
  /-- A count that is too great. -/
  | tooGreat
  /-- Both marks of groups of digits. -/
  | twoGroupings
  /-- A point without a count behind it. -/
  | missingPrecision
  /-- More than one character is left over. -/
  | invalid (code : String)
  /-- Groups of digits in a form that has none. -/
  | grouping (mark form : Char)
  /-- A form that texts are not written in. -/
  | unknownForm (form : Char)
  /-- A rule for the signs of numbers. -/
  | sign
  /-- A blank for the sign of positive numbers. -/
  | blankSign
  /-- A rule for negative zeros. -/
  | negativeZero
  /-- The alternate form of numbers. -/
  | alternate
  /-- Padding between the sign and the digits of a number. -/
  | behindSign
deriving DecidableEq, Repr

/-- A character in a message: itself if it is visible ASCII below `limit`, else by its code. -/
def codeText (limit : Nat) (c : Char) : String :=
  if 32 < c.toNat && c.toNat < limit then String.singleton c
  else "\\x" ++ String.ofList (Nat.toDigits 16 c.toNat)

namespace LayoutFault

/-- What a fault says. -/
def message : LayoutFault → String
  | tooGreat => "Too many decimal digits in format string"
  | twoGroupings => "Cannot specify both ',' and '_'."
  | missingPrecision => "Format specifier missing precision"
  | invalid code => "Invalid format specifier '" ++ code ++ "' for object of type 'str'"
  | grouping mark form =>
    "Cannot specify '" ++ String.singleton mark ++ "' with '" ++ codeText 128 form ++ "'."
  | unknownForm form =>
    "Unknown format code '" ++ codeText 128 form ++ "' for object of type 'str'"
  | sign => "Sign not allowed in string format specifier"
  | blankSign => "Space not allowed in string format specifier"
  | negativeZero => "Negative zero coercion (z) not allowed in string format specifier"
  | alternate => "Alternate form (#) not allowed in string format specifier"
  | behindSign => "'=' alignment not allowed in string format specifier"

end LayoutFault

/-- The greatest count that may be written in a code. -/
def countLimit : Nat := Nat.pow 2 63 - 1

/-- The count that a text begins with, if it begins with a digit, and what follows it. -/
def readCount (cs : List Char) : Except LayoutFault (Option Nat × List Char) :=
  match cs.takeWhile isDigit with
  | [] => .ok (none, cs)
  | digits =>
    if digitsValue digits ≤ countLimit then
      .ok (some (digitsValue digits), cs.dropWhile isDigit)
    else .error .tooGreat

namespace Layout

/-- The text in its field. -/
def apply (l : Layout) (cs : List Char) : List Char :=
  let shown := match l.precision with
    | some count => cs.take count
    | none => cs
  let gap := l.width - shown.length
  let before := match l.side with
    | .left => 0
    | .right => gap
    | .centre => gap / 2
  List.replicate before l.fill ++ shown ++ List.replicate (gap - before) l.fill

/-- The places of padding: the sides, and behind the sign of a number. -/
inductive Place where
  | side (s : Side)
  | behindSign
deriving DecidableEq, Repr

/-- The place that a character names. -/
def Place.ofChar? : Char → Option Place
  | '<' => some (side .left)
  | '>' => some (side .right)
  | '^' => some (side .centre)
  | '=' => some behindSign
  | _ => none

/-- The fill and the place that a code begins with, and what follows them. A place in front
of which another character stands is filled with that character. -/
def readPlace : List Char → Option Char × Place × List Char
  | [] => (none, .side .left, [])
  | [c] =>
    match Place.ofChar? c with
    | some place => (none, place, [])
    | none => (none, .side .left, [c])
  | c :: d :: rest =>
    match Place.ofChar? d, Place.ofChar? c with
    | some place, _ => (some c, place, rest)
    | none, some place => (none, place, d :: rest)
    | none, none => (none, .side .left, c :: d :: rest)

/-- Takes a character off the front of a code, if it is one of some. -/
def readMark (marks : List Char) : List Char → Option Char × List Char
  | [] => (none, [])
  | c :: rest => if c ∈ marks then (some c, rest) else (none, c :: rest)

/-- The mark of groups of digits. Only one of the two kinds may stand there. -/
def readGrouping (cs : List Char) : Except LayoutFault (Option Char × List Char) :=
  match cs with
  | ',' :: '_' :: _ | '_' :: ',' :: _ => .error .twoGroupings
  | c :: rest => if c = ',' || c = '_' then .ok (some c, rest) else .ok (none, c :: rest)
  | [] => .ok (none, [])

/-- The precision behind a point. -/
def readPrecision : List Char → Except LayoutFault (Option Nat × List Char)
  | '.' :: cs => do
    match ← readCount cs with
    | (some count, rest) => return (some count, rest)
    | (none, _) => throw .missingPrecision
  | cs => .ok (none, cs)

/-- Whether numbers written in this form may have groups of digits. -/
def groups (mark form : Char) : Bool :=
  form ∈ ['d', 'e', 'f', 'g', 'E', 'G', '%', 'F', '\x00'] ||
    (mark = '_' && form ∈ ['b', 'o', 'x', 'X'])

/-- Refuses a form in which texts are not written. -/
def checkForm (grouping : Option Char) (form : Char) : Except LayoutFault Unit := do
  if let some mark := grouping then
    if !groups mark form then throw (.grouping mark form)
  if form ≠ 's' then throw (.unknownForm form)

/-- The layout that a code describes: fill and side, the options of numbers, width,
grouping, precision and form, each of which may be missing. -/
def ofCode (code : List Char) : Except LayoutFault Layout := do
  let (fill, place, cs) := readPlace code
  let (sign, cs) := readMark [' ', '+', '-'] cs
  let (zero, cs) := readMark ['z'] cs
  let (alternate, cs) := readMark ['#'] cs
  let (padding, cs) := if fill.isNone then readMark ['0'] cs else (none, cs)
  let (width, cs) ← readCount cs
  let (grouping, cs) ← readGrouping cs
  let (precision, cs) ← readPrecision cs
  match cs with
  | [] => checkForm grouping 's'
  | [form] => checkForm grouping form
  | _ => throw (.invalid (String.ofList code))
  if let some mark := sign then
    throw (if mark = ' ' then .blankSign else .sign)
  if zero.isSome then throw .negativeZero
  if alternate.isSome then throw .alternate
  match place with
  | .behindSign => throw .behindSign
  | .side side =>
    return { fill := (fill.or padding).getD ' ', side, width := width.getD 0, precision }

end Layout

end Contractum.Text
