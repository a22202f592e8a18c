import Contractum.Text.Template

/-!
# Plain templates

Most templates are plain texts around empty fields. Such a template is always filled: the
plain texts stay as they are, and an empty field becomes the next argument, whatever that
argument holds.
-/

namespace Contractum.Text

/-- Characters among which no brace stands. -/
def Braceless (cs : List Char) : Prop :=
  ∀ c ∈ cs, c ≠ Template.openBrace ∧ c ≠ Template.closeBrace

instance (cs : List Char) : Decidable (Braceless cs) :=
  List.decidableBAll (fun c => c ≠ Template.openBrace ∧ c ≠ Template.closeBrace) cs

variable {cs ds : List Char} {c : Char}

theorem braceless_nil : Braceless [] := List.forall_mem_nil _

theorem braceless_cons_iff :
    Braceless (c :: cs) ↔ (c ≠ Template.openBrace ∧ c ≠ Template.closeBrace) ∧ Braceless cs :=
  List.forall_mem_cons

theorem braceless_append_iff : Braceless (cs ++ ds) ↔ Braceless cs ∧ Braceless ds :=
  List.forall_mem_append

theorem braceless_reverse_iff : Braceless cs.reverse ↔ Braceless cs :=
  ⟨fun h c hc => h c (List.mem_reverse.mpr hc), fun h c hc => h c (List.mem_reverse.mp hc)⟩

theorem braceless_iff_count :
    Braceless cs ↔ cs.count Template.openBrace = 0 ∧ cs.count Template.closeBrace = 0 := by
  rw [List.count_eq_zero, List.count_eq_zero]
  constructor
  · intro h
    exact ⟨fun hmem => (h _ hmem).1 rfl, fun hmem => (h _ hmem).2 rfl⟩
  · rintro ⟨hopen, hclose⟩ c hc
    refine ⟨?_, ?_⟩
    · rintro rfl
      exact hopen hc
    · rintro rfl
      exact hclose hc

/-- A class of characters that has no braces in it. -/
theorem braceless_of_forall {p : Char → Bool} (hopen : p Template.openBrace = false)
    (hclose : p Template.closeBrace = false) (h : ∀ d ∈ cs, p d = true) : Braceless cs := by
  intro c hc
  constructor
  · rintro rfl
    rw [h _ hc] at hopen
    cases hopen
  · rintro rfl
    rw [h _ hc] at hclose
    cases hclose

/-- A text in which no brace stands. -/
def IsBraceless (s : String) : Prop :=
  ∀ c ∈ s.toList, c ≠ Template.openBrace ∧ c ≠ Template.closeBrace

instance (s : String) : Decidable (IsBraceless s) :=
  List.decidableBAll (fun c => c ≠ Template.openBrace ∧ c ≠ Template.closeBrace) s.toList

theorem IsBraceless.append {s t : String} (hs : IsBraceless s) (ht : IsBraceless t) :
    IsBraceless (s ++ t) := by
  rw [IsBraceless, String.toList_append]
  exact braceless_append_iff.mpr ⟨hs, ht⟩

namespace Template

variable {objects : Objects} {args : List String} {arg before after : String} {depth : Nat}
  {numbering : Numbering}

/-- Plain characters are kept in front of what the rest of a template becomes. -/
theorem fillFrom_append {cs rest text : List Char} {last : Numbering}
    (hplain : Braceless cs)
    (hrest : fillFrom objects args depth numbering rest = .ok (text, last)) :
    fillFrom objects args depth numbering (cs ++ rest) = .ok (cs ++ text, last) := by
  induction cs with
  | nil => exact hrest
  | cons c cs ih =>
      obtain ⟨hc, hcs⟩ := braceless_cons_iff.mp hplain
      have hlater := ih hcs
      rw [List.cons_append, fillFrom.eq_def]
      simp [hc.1, hc.2, hlater, bind, Except.bind, pure, Except.pure]

theorem fillFrom_nil : fillFrom objects args depth numbering [] = .ok ([], numbering) := by
  rw [fillFrom.eq_def]

theorem fillFrom_plain {cs : List Char} (hplain : Braceless cs) :
    fillFrom objects args depth numbering cs = .ok (cs, numbering) := by
  have hnil : fillFrom objects args depth numbering [] = .ok ([], numbering) := fillFrom_nil
  have happend := fillFrom_append hplain hnil
  rwa [List.append_nil] at happend

/-- An empty field shows its argument as it is. -/
theorem value_empty :
    (Field.mk [] none []).value objects (arg :: args) .undecided =
      .ok (.text arg.toList, .next 1) := by
  have hargument : argument (arg :: args) .undecided [] = .ok (arg.toList, .next 1) := rfl
  have hpart : part objects (.text arg.toList) [] = .ok (.text arg.toList) := by rw [part]
  simp only [Field.value, List.takeWhile_nil, List.drop_nil, hargument, hpart, bind, Except.bind]
  rfl

/-- The layout of an empty field changes nothing. -/
theorem layOut_empty (cs : List Char) : layOut objects [] (.text cs) = .ok cs := by
  have hlayout : (Layout.ofCode []).mapError TemplateFault.layout = .ok {} := rfl
  simp [layOut, hlayout, Layout.apply, bind, Except.bind, pure, Except.pure]

/-- An empty field becomes the first argument, if no argument was taken before it. -/
theorem fillFrom_hole {rest text : List Char} {last : Numbering}
    (hrest : fillFrom objects (arg :: args) depth (.next 1) rest = .ok (text, last)) :
    fillFrom objects (arg :: args) depth .undecided (openBrace :: closeBrace :: rest) =
      .ok (arg.toList ++ text, last) := by
  have hfield : readField (closeBrace :: rest) = .ok (⟨[], none, []⟩, rest) := rfl
  have hclose : closeBrace ≠ openBrace := by decide
  rw [fillFrom.eq_def]
  simp only [decide_true, Bool.true_or, if_true, if_neg hclose, if_neg hclose.symm]
  split
  · next fault hfault => cases hfield.symm.trans hfault
  · next field tail hread =>
      cases hfield.symm.trans hread
      simp [value_empty, layOut_empty, hrest, bind, Except.bind, pure, Except.pure]

theorem fill_plain {template : String} (h : IsBraceless template) :
    fill objects template args = .ok template := by
  rw [fill, fillFrom_plain h]
  exact congrArg Except.ok String.ofList_toList

/-- A plain text with one empty field holds the first argument in its place. -/
theorem fill_hole (hbefore : IsBraceless before) (hafter : IsBraceless after) :
    fill objects (before ++ hole ++ after) (arg :: args) = .ok (before ++ arg ++ after) := by
  have hrest : fillFrom objects (arg :: args) 1 .undecided (hole.toList ++ after.toList) =
      .ok (arg.toList ++ after.toList, .next 1) := fillFrom_hole (fillFrom_plain hafter)
  rw [fill, String.toList_append, String.toList_append, List.append_assoc,
    fillFrom_append hbefore hrest]
  apply congrArg Except.ok
  simp [String.append_assoc]

end Template

end Contractum.Text
