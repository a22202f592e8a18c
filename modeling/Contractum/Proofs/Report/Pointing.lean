import Contractum.Proofs.Spelling.Tiling
import Contractum.Report.Diagnosis

/-!
# Where diagnoses point

A reading that ends with a problem ends at a token, the first at which its text must be wrong. The
diagnosis shows the text behind two blanks, and under it marks for the characters of that token.

Places count the characters of the whole text, and the marks are put into these columns. They
stand under the token only as long as the text is a single line: a line feed is a gap like any
other to the tokens, but it moves what stands behind it into a line of its own.
-/

namespace Contractum

open Parse Text

/-- Blanks, and marks behind them. -/
def pointer (blanks tildes : Nat) : List Char :=
  List.replicate blanks ' ' ++ '^' :: List.replicate tildes '~'

/-- The columns of a token where its text is shown behind two blanks. The end of the text has the
column behind all its characters. -/
inductive InColumn (text : String) (l : Located) : Nat → Prop
  | inside {k : Nat} (order : l.start ≤ k) (before : k < l.stop) : InColumn text l (k + 2)
  | behind (finish : l.token = .finish) : InColumn text l (text.length + 2)

/-- Whether a line marks the columns of a token, and no others. -/
def Underlines (text : String) (l : Located) (under : List Char) : Prop :=
  (∃ blanks tildes, under = pointer blanks tildes) ∧
    ∀ column, (∃ c, under[column]? = some c ∧ c ≠ ' ') ↔ InColumn text l column

/-- Whether what is shown are two lines, the text behind two blanks and one that marks a token of
the text. -/
def PointsAt (text : String) (l : Located) (shown : String) : Prop :=
  ∃ line, shown.toList.splitOn '\n' = [' ' :: ' ' :: text.toList, line] ∧ Underlines text l line

variable {text : String} {ts : List Token} {ls : List Located} {l : Located} {e : ParseFault}
variable {p : Problem} {start stop blanks tildes column : Nat}

section Slices

variable {α : Type} {i j : Nat}

/-- Between places that count from the start, a part is what is taken and dropped. -/
theorem slice_natCast (xs : List α) (i j : Nat) : slice xs i j = (xs.take j).drop i := by
  have hplace (n : Nat) : clampPlace xs.length n = min n xs.length := by
    rw [clampPlace, if_pos (Int.natCast_nonneg n), Int.toNat_natCast]
  rw [slice, hplace, hplace, ← List.take_eq_take_min, List.drop_eq_drop_iff, List.length_take]
  omega

/-- The parts in front of two places, between them and behind them make up the whole. -/
theorem slices_append (xs : List α) (h : i ≤ j) :
    slice xs 0 i ++ slice xs i j ++ slice xs j xs.length = xs := by
  have hfront : slice xs 0 i = (xs.take j).take i := by
    rw [List.take_take, min_eq_left h]
    exact slice_natCast xs 0 i
  rw [hfront, slice_natCast, List.take_append_drop, slice_natCast, List.take_length,
    List.take_append_drop]

end Slices

/-- All characters behind the blanks are marks. -/
theorem marked_pointer_iff :
    (∃ c, (pointer blanks tildes)[column]? = some c ∧ c ≠ ' ') ↔
      blanks ≤ column ∧ column ≤ blanks + tildes := by
  rcases Nat.lt_or_ge column blanks with hlt | hge
  · have hblank : (pointer blanks tildes)[column]? = some ' ' := by
      rw [pointer, List.getElem?_append_left (by simpa using hlt)]
      exact List.getElem?_replicate_of_lt hlt
    simp [hblank, Nat.not_le_of_lt hlt]
  · obtain ⟨k, rfl⟩ := Nat.exists_eq_add_of_le hge
    have hmark : (pointer blanks tildes)[blanks + k]? = ('^' :: List.replicate tildes '~')[k]? := by
      rw [pointer, List.getElem?_append_right (by simp), List.length_replicate,
        Nat.add_sub_cancel_left]
    rw [hmark]
    cases k with
    | zero => simp
    | succ k =>
        have htilde : (∃ c, (List.replicate tildes '~')[k]? = some c ∧ c ≠ ' ') ↔ k < tildes := by
          simp [List.getElem?_replicate]
        rw [List.getElem?_cons_succ, htilde]
        omega

theorem lineFeed_not_mem_pointer : '\n' ∉ pointer blanks tildes := by
  simp [pointer]

/-- What a diagnosis shows without emphasis. -/
theorem Problem.toList_render_diagnosis (hstart : p.start = start)
    (hstop : max p.stop (p.start + 1) = stop) (hlt : start < stop) (colour : Colour) :
    ((p.diagnosis colour).render .unpainted).toList =
      ' ' :: ' ' :: p.text.toList ++ '\n' :: pointer (start + 2) (stop - start - 1) := by
  have hwidth : ((stop : Int) - start - 1).toNat = stop - start - 1 := by
    omega
  have hparts := slices_append p.text.toList (Nat.le_of_lt hlt)
  rw [hstart] at hstop
  simp only [Problem.diagnosis, hstart, hstop, copies, hwidth, Int.toNat_natCast,
    Styled.render_append, Styled.render_plain, Styled.render_colour, Painting.unpainted_colour,
    String.toList_append, String.toList_ofList]
  rw [pointer, List.replicate_succ, List.replicate_succ]
  conv_rhs => rw [← hparts]
  simp

theorem Located.start_lt_markEnd (l : Located) : l.start < l.markEnd :=
  Nat.lt_of_lt_of_le (Nat.lt_succ_self l.start) (Nat.le_max_right _ _)

/-- A token has the columns that its mark is as wide as, the end of the text included. -/
theorem inColumn_iff (h : Tiles text.toList start ls) (hl : l ∈ ls) :
    InColumn text l column ↔ l.start + 2 ≤ column ∧ column < l.markEnd + 2 := by
  obtain ⟨hfinish, -⟩ := h.places l hl
  obtain ⟨-, hcovers⟩ := h.range l hl
  rw [String.length_toList] at hfinish
  constructor
  · rintro (⟨horder, hbefore⟩ | hend)
    · rw [Located.markEnd]
      omega
    · obtain ⟨hstart, hstop⟩ := hfinish hend
      rw [Located.markEnd, hstart]
      omega
  · rintro ⟨horder, hbefore⟩
    obtain ⟨k, rfl⟩ := Nat.exists_eq_add_of_le' (Nat.le_of_add_left_le horder)
    by_cases hend : l.token = .finish
    · obtain ⟨hstart, hstop⟩ := hfinish hend
      obtain rfl : k = text.length := by
        rw [Located.markEnd] at hbefore
        omega
      exact .behind hend
    · have hlt := hcovers hend
      rw [Located.markEnd] at hbefore
      exact .inside (by omega) (by omega)

/-- The marks of a diagnosis are put into the columns of a token that is tiled. -/
theorem underlines_pointer (h : Tiles text.toList start ls) (hl : l ∈ ls) :
    Underlines text l (pointer (l.start + 2) (l.markEnd - l.start - 1)) := by
  refine ⟨⟨_, _, rfl⟩, fun column => ?_⟩
  have hlt := l.start_lt_markEnd
  rw [marked_pointer_iff, inColumn_iff h hl]
  omega

/-- Where a line feed divides a text into two lines, there is none in the first of them. -/
theorem lineFeed_not_mem_of_splitOn {first rest last : List Char}
    (h : (first ++ '\n' :: rest).splitOn '\n' = [first, last]) : '\n' ∉ first := by
  intro hfeed
  obtain ⟨front, back, rfl⟩ := List.append_of_mem hfeed
  rw [List.splitOn_append_cons_self, List.splitOn_append_cons_self] at h
  have hcount := congrArg List.length h
  have hfront := List.length_pos_iff.mpr (List.splitOn_ne_nil '\n' front)
  have hback := List.length_pos_iff.mpr (List.splitOn_ne_nil '\n' back)
  have hrest := List.length_pos_iff.mpr (List.splitOn_ne_nil '\n' rest)
  simp only [List.length_append, List.length_cons, List.length_nil] at hcount
  omega

/-- A text behind two blanks is one line, with another one behind it, unless it has a line feed. -/
theorem pointsAt_iff {shown : String} {line : List Char} (hline : Underlines text l line)
    (hshown : shown.toList = ' ' :: ' ' :: text.toList ++ '\n' :: line) :
    PointsAt text l shown ↔ '\n' ∉ text.toList := by
  have hmem : '\n' ∉ ' ' :: ' ' :: text.toList ↔ '\n' ∉ text.toList := by
    simp
  rw [← hmem, PointsAt, hshown]
  constructor
  · rintro ⟨line, hlines, -⟩
    exact lineFeed_not_mem_of_splitOn hlines
  · intro hfeed
    refine ⟨line, ?_, hline⟩
    obtain ⟨blanks, tildes, rfl⟩ := hline.1
    rw [List.splitOn_append_cons_self_of_not_mem hfeed,
      List.splitOn_eq_singleton lineFeed_not_mem_pointer]

theorem partEnd_natCast (n : Nat) (text : String) : partEnd n text = n := by
  apply if_neg
  omega

/-- A failure at a token is a problem about that part of the text which the token covers. -/
theorem Halts.part (h : Halts ts l e) (hproblem : Fault.ofParse text e = .problem p)
    (htext : text ≠ "") (hunknown : ∀ c, l.token = .unknown c → l.stop = l.start + 1) :
    p.text = text ∧ p.start = l.start ∧ max p.stop (p.start + 1) = l.markEnd := by
  have hmarked : max (partEnd l.markEnd text) (l.start + 1) = (l.markEnd : Int) := by
    rw [partEnd_natCast, Located.markEnd]
    omega
  cases h with
  | unknownChar htoken =>
      have hmarkEnd : l.markEnd = l.start + 1 := by
        rw [Located.markEnd, hunknown _ htoken, max_self]
      cases hproblem
      rw [hmarkEnd] at hmarked ⊢
      exact ⟨rfl, rfl, hmarked⟩
  | unexpected | wrongKind =>
      cases hproblem
      exact ⟨rfl, rfl, hmarked⟩
  | freeVariable =>
      have hsome : text.isEmpty = false := Bool.eq_false_iff.mpr (mt String.isEmpty_iff.mp htext)
      rw [Fault.ofParse, Problem.freeVariable_of_text hsome] at hproblem
      cases hproblem
      refine ⟨rfl, rfl, ?_⟩
      dsimp only
      rw [partEnd_natCast, Located.markEnd]
      omega

/-- A reading that ends with a problem ends at the first token at which its text must be wrong. -/
theorem Term.exists_halts (hparse : Term.parse text = .error e)
    (hproblem : Fault.ofParse text e = .problem p) :
    ∃ before l after, Tiles text.toList 0 (before ++ l :: after) ∧
      Halts (before.map (·.token)) l e ∧ ¬ Viable (before.map (·.token) ++ [l.token]) := by
  obtain ⟨fault, hs, rfl⟩ | ⟨s, q, hs, hwhole⟩ := Term.parse_error hparse
  · obtain ⟨digits, rfl⟩ := Stream.ofText_error hs
    cases hproblem
  · have hitems := Stream.items_of_ofText hs
    have hended : Ended s.items := hitems ▸ ended_scan 0 text.toList
    obtain ⟨before, l, after, hlocated, hhalts, -⟩ | ⟨digits, stop, -, rfl⟩ :=
      halts_or_tooLong hended (Nat.le_refl _) [] hwhole
    · obtain ⟨ls, htiles, hshown⟩ := exists_tiles_shown text.toList 0 (Nat.zero_le _)
      obtain ⟨rest, hrest⟩ := located_prefix_of_shown hshown
      rw [List.drop_zero, ← hitems, hlocated] at hrest
      have hstarts : StartFrom 0 (before ++ l :: after) :=
        hlocated ▸ hitems ▸ startFrom_located_scan 0 text.toList
      have hrefuted : Refuted e.IsFree (before.map (·.token)) l.token :=
        fun _ _ _ _ hfree hderives hscope =>
          not_derives_of_located hended hstarts hlocated hwhole hhalts hfree hderives hscope
      refine ⟨before, l, after ++ rest, ?_, hhalts, hrefuted.stuck⟩
      rw [← List.cons_append, ← List.append_assoc, hrest]
      exact htiles
    · cases hproblem

/-- The diagnosis of a text that is no term marks the first token at which the text must be wrong:
in the columns of that token, as they are counted in the text behind two blanks. It is the two
lines of that text and these marks exactly if the text has no line feed. -/
theorem Problem.diagnosis_points_iff (htext : text ≠ "") (hparse : Term.parse text = .error e)
    (hproblem : Fault.ofParse text e = .problem p) (colour : Colour) :
    ∃ before l after, Tiles text.toList 0 (before ++ l :: after) ∧
      Viable (before.map (·.token)) ∧ ¬ Viable (before.map (·.token) ++ [l.token]) ∧
      (PointsAt text l ((p.diagnosis colour).render .unpainted) ↔ '\n' ∉ text.toList) ∧
      ∃ line, Underlines text l line ∧
        ((p.diagnosis colour).render .unpainted).toList = ' ' :: ' ' :: text.toList ++ '\n' :: line := by
  obtain ⟨before, l, after, htiles, hhalts, hstuck⟩ := Term.exists_halts hparse hproblem
  have hl : l ∈ before ++ l :: after := List.mem_append_right _ List.mem_cons_self
  obtain ⟨-, hunknown⟩ := htiles.places l hl
  obtain ⟨rfl, hstart, hstop⟩ := hhalts.part hproblem htext hunknown
  have hline := underlines_pointer htiles hl
  have hshown := p.toList_render_diagnosis hstart hstop l.start_lt_markEnd colour
  exact ⟨before, l, after, htiles, hhalts.viable, hstuck, pointsAt_iff hline hshown, _, hline,
    hshown⟩

/-- A name of three characters is marked behind a tab, which is one character as well. -/
theorem Problem.diagnosis_points_iff_name :
    "1\tfoo" ≠ "" ∧ Term.parse "1\tfoo" = .error (.freeVariable "foo" 2 5) ∧
      Fault.ofParse "1\tfoo" (.freeVariable "foo" 2 5) =
        .problem (.freeVariable "foo" "1\tfoo" 2 5) ∧
      ∃ l, PointsAt "1\tfoo" l "  1\tfoo\n    ^~~" := by
  have htext : "1\tfoo" ≠ "" := by decide
  have hparse : Term.parse "1\tfoo" = .error (.freeVariable "foo" 2 5) := by decide +kernel
  have hproblem : Fault.ofParse "1\tfoo" (.freeVariable "foo" 2 5) =
      .problem (.freeVariable "foo" "1\tfoo" 2 5) := rfl
  have hshown : ((Problem.freeVariable "foo" "1\tfoo" 2 5).diagnosis .red).render .unpainted =
      "  1\tfoo\n    ^~~" := by
    decide +kernel
  obtain ⟨before, l, after, -, -, -, hpoints, -⟩ :=
    Problem.diagnosis_points_iff htext hparse hproblem .red
  rw [hshown] at hpoints
  exact ⟨htext, hparse, hproblem, l, hpoints.mpr (by decide +kernel)⟩

/-- The character behind the line feed stands in the first column of the second line, and is marked
in the fifth column of a third one. -/
theorem Problem.diagnosis_lineFeed :
    let problem := Problem.unknownChar ["END"] "$" "1\n$" 2
    Term.parse "1\n$" = .error (.unknownChar [.finish] '$' 2) ∧
      Fault.ofParse "1\n$" (.unknownChar [.finish] '$' 2) = .problem problem ∧
      (problem.diagnosis .red).render .unpainted = "  1\n$\n    ^" ∧
      ∀ l, ¬ PointsAt "1\n$" l ((problem.diagnosis .red).render .unpainted) := by
  intro problem
  have hshown : (problem.diagnosis .red).render .unpainted = "  1\n$\n    ^" := by decide +kernel
  refine ⟨by decide +kernel, rfl, hshown, ?_⟩
  have hcount : ("  1\n$\n    ^".toList.splitOn '\n').length = 3 := by decide +kernel
  rintro l ⟨line, hlines, -⟩
  rw [hshown] at hlines
  rw [hlines] at hcount
  simp at hcount

end Contractum
