import Contractum.Report.Problem

/-!
# Diagnoses

A diagnosis shows the text of a problem with the offending part emphasised, and under it a
line that points at that part. A part that would be empty is shown one character wide, so
the end of a text can be pointed at.

Places count from the start of the text, negative ones from its end.
-/

namespace Contractum

open Text

/-- A place in a list of this length: negative places count from the end, and places beyond
the ends are moved to them. -/
def clampPlace (length : Nat) (place : Int) : Nat :=
  if 0 ≤ place then min place.toNat length else (place + length).toNat

/-- The part of a list between two places, empty if the second is before the first. -/
def slice (xs : List α) (start stop : Int) : List α :=
  (xs.take (clampPlace xs.length stop)).drop (clampPlace xs.length start)

/-- A number of equal characters, none for a negative number. -/
def copies (count : Int) (c : Char) : String :=
  String.ofList (List.replicate count.toNat c)

/-- The text of a problem and the line that points at the offending part. -/
def Problem.diagnosis (colour : Colour) (problem : Problem) : Styled :=
  let cs := problem.text.toList
  let stop := max problem.stop (problem.start + 1)
  Styled.plain ("  " ++ String.ofList (slice cs 0 problem.start)) ++
    Styled.colour colour (String.ofList (slice cs problem.start stop)) ++
    Styled.plain (String.ofList (slice cs stop cs.length) ++ "\n" ++ "  " ++
      copies problem.start ' ') ++
    Styled.colour colour ("^" ++ copies (stop - problem.start - 1) '~')

end Contractum
