import Contractum.Proofs.Session.Steps
import Contractum.Proofs.Shell.Lines
import Contractum.Proofs.Spelling.Margins

/-!
# Lines that ask for a step

A number that can be written is entered by its text. A line made of the name of the command and the
text of a number asks for the step of that number, and if the step can be taken, it is taken and
recorded, and the new term is shown.
-/

namespace Contractum

open Text

variable {c : Char} {cs : List Char} {n : Nat}

theorem isBlank_of_isDigit (h : isDigit c = true) : isBlank c = false :=
  Rule.isBlank_of_opens .literal h

/-- Digits by themselves are a group. -/
theorem groupedDigits?_of_digits (h : ∀ d ∈ c :: cs, isDigit d = true) :
    groupedDigits? (c :: cs) = some (c :: cs) := by
  induction cs generalizing c with
  | nil =>
      rw [groupedDigits?, if_pos (h c List.mem_cons_self)]
  | cons d cs ih =>
      obtain ⟨hc, hcs⟩ := List.forall_mem_cons.mp h
      have hunderscore : d ≠ '_' := by
        rintro rfl
        exact absurd (hcs '_' List.mem_cons_self) (by decide)
      simp [groupedDigits?, hunderscore, hc, ih hcs]

theorem readSign_of_isDigit (h : isDigit c = true) : readSign (c :: cs) = (false, c :: cs) := by
  unfold readSign
  split
  · next heq =>
      cases heq
      exact absurd h (by decide)
  · next heq =>
      cases heq
      exact absurd h (by decide)
  · rfl

/-- A number that can be written is read back from its text. -/
theorem readInt_naturalText (h : Text.isWritable n = true) : readInt (naturalText n) = .ok n := by
  obtain ⟨c, cs, hdigits⟩ := List.exists_cons_of_ne_nil (Nat.toDigits_ne_nil (n := n) (b := 10))
  have hlength : (c :: cs).length ≤ digitLimit :=
    hdigits ▸ length_toDigits_le_digitLimit (of_decide_eq_true h)
  have hvalue : digitsValue (c :: cs) = n := hdigits ▸ digitsValue_toDigits n
  have hdigit : ∀ d ∈ c :: cs, isDigit d = true :=
    fun d hd => isDigit_of_mem_toDigits (hdigits ▸ hd)
  have hbody : ∀ d ∈ c :: cs, isBody d = true :=
    fun d hd => Bool.or_eq_true_iff.mpr (.inl (hdigit d hd))
  have hc := hdigit c List.mem_cons_self
  have hmargin : Stopped isMargin (c :: cs) := by
    rintro d ⟨⟩
    rw [isMargin, isBlank_of_isDigit hc]
    rfl
  rw [readInt, naturalText, String.toList_ofList, hdigits, hmargin.dropWhile,
    readSign_of_isDigit hc]
  simp only [List.takeWhile_eq_self_iff.mpr hbody, groupedDigits?_of_digits hdigit, if_pos hlength,
    List.dropWhile_eq_nil_iff.mpr hbody, List.all_nil, if_true, hvalue]
  rfl

namespace Shell

variable {s : Session} {work : Work} {index : Int} {path : Path} {kind : RedexKind} {u : Term}

/-- The line that asks for the step of a number. -/
def stepLine (index : Int) : String :=
  Command.step.name ++ " " ++ integerText index

theorem ofLine_stepLine (n : Nat) :
    Request.ofLine (stepLine n) = .command .step (naturalText n) := by
  have hblank : ∀ d ∈ Nat.toDigits 10 n, isBlank d = false :=
    fun d hd => isBlank_of_isDigit (isDigit_of_mem_toDigits hd)
  have hback : Stopped isBlank (Nat.toDigits 10 n).reverse :=
    stopped_of_forall fun d hd => hblank d (List.mem_reverse.mp hd)
  have hne : (Nat.toDigits 10 n).reverse ≠ [] := by
    rw [ne_eq, List.reverse_eq_nil_iff]
    exact Nat.toDigits_ne_nil
  have hline : (stepLine n).toList = "step".toList ++ ' ' :: Nat.toDigits 10 n := by
    change (Command.step.name ++ " " ++ naturalText n).toList = _
    simp [naturalText, Command.name]
  have htrim : trimWhile isBlank (stepLine n).toList =
      "step".toList ++ ' ' :: Nat.toDigits 10 n := by
    rw [hline]
    apply trimWhile_eq_self
    · rintro d ⟨⟩
      decide
    · rw [List.reverse_append, List.reverse_cons, List.append_assoc]
      exact hback.append hne _
  have hname : ∀ d ∈ "step".toList, Request.isNameChar d = true :=
    List.all_eq_true.mp (by decide)
  have hgap : Stopped Request.isNameChar (' ' :: Nat.toDigits 10 n) := by
    rintro d ⟨⟩
    decide
  have hargument : trimWhile isBlank (' ' :: Nat.toDigits 10 n) = Nat.toDigits 10 n := by
    rw [trimWhile_cons (by decide)]
    exact trimWhile_eq_self (stopped_of_forall hblank) hback
  have hfound : Command.ofName? (String.ofList "step".toList) = some .step := by decide
  rw [Request.ofLine, htrim]
  change Request.ofNamed ("step".toList ++ ' ' :: Nat.toDigits 10 n) = _
  rw [Request.ofNamed, takeWhile_append_of_stopped hname hgap,
    dropWhile_append_of_stopped hname hgap, hargument, hfound]
  rfl

/-- A step that can be taken is taken by its line, and the new term is shown. -/
theorem onLine_stepLine (hwork : s.work = some work) (hindex : Text.isWritable index = true)
    (picked : Session.pick? work.term.redexes index = some (path, kind))
    (contracted : work.term.contractAt path = .ok u) (written : u.isWritable = true) :
    onLine (stepLine index) s = .ok .done ((s.followed work [(kind, u)]).printing
      (Session.shownText (Session.columnText s.reporter.host.painting .bold) false u)) := by
  obtain ⟨n, rfl⟩ := Int.eq_ofNat_of_zero_le (Session.nonneg_of_pick? picked)
  have hstep := discard_of_ok (Session.reduce_followed hwork picked contracted written)
  have hshow := Session.prints_showTerm (s := s.followed work [(kind, u)]) rfl written .bold false
  have hact := (bind_of_ok (f := fun _ => showTerm) hstep).trans hshow
  have hrun : step (naturalText n) = (do discard (Session.reduce n); showTerm) := by
    rw [step, readInt_naturalText hindex]
  rw [← hrun] at hact
  rw [onLine, ofLine_stepLine]
  exact reporting_of_ok hact

end Shell

end Contractum
