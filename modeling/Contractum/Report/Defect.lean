import Contractum.Text.Template

/-!
# Defects

A defect is a failure of the program itself, such as a number too long to be written or a
message that cannot be made. It has a class, by which it is known to the user, and a
message.
-/

namespace Contractum

open Text

/-- The ways in which the program itself can fail. -/
inductive Defect where
  /-- A message that cannot be made. -/
  | template (fault : TemplateFault)
  /-- A position beyond the ends of a list. -/
  | listIndex
  /-- A number of too many digits to be read. -/
  | unreadable (digits : Nat)
  /-- A number of too many digits to be written. -/
  | unwritable
  /-- A term was to be shown before one was entered. -/
  | noTerm
  /-- A defect of some other class. -/
  | other (className message : String)
deriving DecidableEq, Repr

namespace Defect

/-- The class by which a defect is known. -/
def className : Defect → String
  | template fault => fault.className
  | listIndex => "IndexError"
  | unreadable _ | unwritable => "ValueError"
  | noTerm => "AttributeError"
  | other name _ => name

/-- How the limit on the digits of numbers is stated. -/
def limitText : String :=
  "Exceeds the limit (" ++ naturalText digitLimit ++ " digits) for integer string conversion"

/-- How the limit on the digits of numbers could be changed. -/
def limitAdvice : String :=
  "; use sys.set_int_max_str_digits() to increase the limit"

/-- What a defect says. -/
def message : Defect → String
  | template fault => fault.message
  | listIndex => "list index out of range"
  | unreadable digits =>
    limitText ++ ": value has " ++ naturalText digits ++ " digits" ++ limitAdvice
  | unwritable => limitText ++ limitAdvice
  | noTerm => "'NoneType' object has no attribute 'accept'"
  | other _ message => message

end Defect

end Contractum
