import Contractum.Proofs.Report.Braces

/-!
# What templates spend braces on

Of the braces of a template that is filled, some open and close fields and are gone, and the others
stand doubled and are halved. So where no object brings braces in their place, a template with
braces is filled to another text, and two parts of it with something between them cannot both be
found in that text, unless neither has a brace.
-/

namespace Contractum.Text

namespace Template

variable {objects : Objects} {args : List String} {depth fields : Nat}
  {numbering last : Numbering} {c : Char} {cs ds rest name shown text : List Char}
  {quoting : Option Char} {field : Field}

/-- The layout of a field ends where as many fields are closed as opened. -/
theorem layoutWidth_spec {opened : Nat} (h : cs.drop (layoutWidth opened cs) = c :: rest) :
    c = closeBrace ∧ (cs.take (layoutWidth opened cs)).count closeBrace =
      (cs.take (layoutWidth opened cs)).count openBrace + opened := by
  induction opened, cs using layoutWidth.induct with
  | case1 opened =>
      rw [layoutWidth] at h
      cases h
  | case2 cs =>
      rw [layoutWidth, if_pos rfl] at h ⊢
      cases h
      exact ⟨rfl, rfl⟩
  | case3 cs opened ih =>
      rw [layoutWidth, if_pos rfl] at h ⊢
      obtain ⟨hc, hcount⟩ := ih h
      refine ⟨hc, ?_⟩
      rw [List.take_succ_cons, List.count_cons_self, List.count_cons_of_ne (by decide), hcount]
      rfl
  | case4 opened d cs hd ih =>
      have hwidth : layoutWidth opened (d :: cs) =
          layoutWidth (if d = openBrace then opened + 1 else opened) cs + 1 := by
        rw [layoutWidth.eq_def]
        exact if_neg hd
      rw [hwidth] at h ⊢
      obtain ⟨hc, hcount⟩ := ih h
      refine ⟨hc, ?_⟩
      rw [List.take_succ_cons, List.count_cons_of_ne hd, hcount]
      split
      · next hopen =>
          rw [hopen, List.count_cons_self]
          omega
      · next hopen => rw [List.count_cons_of_ne hopen]

/-- The field reaches from the front of the one text to the other text: its layout, in which as
many fields are opened as closed, stands in front of its end, and no brace in front of the
layout. -/
def Field.Spans (field : Field) (cs rest : List Char) : Prop :=
  field.layout.count closeBrace = field.layout.count openBrace ∧
    ∃ front, Braceless front ∧ cs = front ++ field.layout ++ closeBrace :: rest

theorem Field.Spans.append (h : field.Spans cs rest) (hplain : Braceless ds) :
    field.Spans (ds ++ cs) rest := by
  obtain ⟨hbalanced, front, hfront, rfl⟩ := h
  refine ⟨hbalanced, ds ++ front, braceless_append_iff.mpr ⟨hplain, hfront⟩, ?_⟩
  simp only [List.append_assoc]

theorem spans_of_readLayout (h : readLayout name quoting cs = .ok (field, rest)) :
    field.name = name ∧ field.quoting = quoting ∧ field.Spans cs rest := by
  unfold readLayout at h
  split at h
  · cases h
  · next c tail hdrop =>
      cases h
      obtain ⟨rfl, hbalanced⟩ := layoutWidth_spec hdrop
      have hcs := List.take_append_drop (layoutWidth 0 cs) cs
      rw [hdrop] at hcs
      exact ⟨rfl, rfl, hbalanced, [], braceless_nil, hcs.symm⟩

theorem spans_of_readQuoting (h : readQuoting name cs = .ok (field, rest))
    (hquoting : ∀ c ∈ field.quoting, Braceless [c]) : field.name = name ∧ field.Spans cs rest := by
  unfold readQuoting at h
  split at h
  · cases h
  · cases h
  · next quoting next tail =>
      split at h
      · next hclose =>
          cases h
          exact ⟨rfl, rfl, [quoting], hquoting quoting rfl, by rw [hclose]; rfl⟩
      split at h
      · next hcolon =>
          obtain ⟨hfield, hmark, hspans⟩ := spans_of_readLayout h
          have hfront : Braceless ([quoting] ++ [':']) :=
            braceless_append_iff.mpr ⟨hquoting quoting hmark, by decide⟩
          rw [hcolon]
          exact ⟨hfield, hspans.append hfront⟩
      · cases h

theorem spans_of_readField (h : readField cs = .ok (field, rest)) (hname : Braceless field.name)
    (hquoting : ∀ c ∈ field.quoting, Braceless [c]) : field.Spans cs rest := by
  have hcs := (List.take_append_drop (nameWidth false cs) cs).symm
  unfold readField at h
  split at h
  · cases h
  · next last tail hdrop =>
      rw [hdrop, List.append_cons] at hcs
      by_cases hopen : last = openBrace
      · rw [if_pos hopen] at h
        cases h
      rw [if_neg hopen] at h
      by_cases hclose : last = closeBrace
      · rw [if_pos hclose] at h
        cases h
        refine ⟨rfl, _, hname, ?_⟩
        rw [List.append_nil, ← hclose, List.append_cons, ← hcs]
      rw [if_neg hclose] at h
      have hfront (hfield : field.name = cs.take (nameWidth false cs)) :
          Braceless (cs.take (nameWidth false cs) ++ [last]) := by
        rw [← hfield]
        exact braceless_append_iff.mpr ⟨hname, List.forall_mem_singleton.mpr ⟨hopen, hclose⟩⟩
      rw [hcs]
      split at h
      · obtain ⟨hfield, -, hspans⟩ := spans_of_readLayout h
        exact hspans.append (hfront hfield)
      · obtain ⟨hfield, hspans⟩ := spans_of_readQuoting h hquoting
        exact hspans.append (hfront hfield)

/-- A character as it is written in a template: a brace is doubled. -/
def written (c : Char) : List Char :=
  if c = openBrace ∨ c = closeBrace then [c, c] else [c]

/-- Of the braces of a template, as many are spent on opening fields as on closing them, and half
of the others are kept. With none spent, the template is the text with its braces doubled. -/
structure Spends (cs text : List Char) (fields : Nat) : Prop where
  opened : cs.count openBrace = 2 * text.count openBrace + fields
  closed : cs.count closeBrace = 2 * text.count closeBrace + fields
  unspent : fields = 0 → cs = text.flatMap written

theorem spends_nil : Spends [] [] 0 := ⟨rfl, rfl, fun _ => rfl⟩

theorem count_written {b : Char} (hb : b = openBrace ∨ b = closeBrace) (c : Char) :
    (written c).count b = 2 * [c].count b := by
  rw [written]
  split
  · rw [← List.singleton_append, List.count_append]
    omega
  · next h =>
      have hne : c ≠ b := by
        rintro rfl
        exact h hb
      rw [List.count_singleton, if_neg (by simpa using hne)]

theorem Spends.kept (c : Char) (h : Spends cs text fields) :
    Spends (written c ++ cs) (c :: text) fields := by
  have htext : c :: text = [c] ++ text := rfl
  constructor
  · rw [htext, List.count_append, List.count_append, count_written (.inl rfl), h.opened]
    omega
  · rw [htext, List.count_append, List.count_append, count_written (.inr rfl), h.closed]
    omega
  · intro hfields
    rw [List.flatMap_cons, ← h.unspent hfields]

theorem spends_of_braceless (h : Braceless cs) : Spends cs cs 0 := by
  induction cs with
  | nil => exact spends_nil
  | cons c cs ih =>
      rw [braceless_cons_iff] at h
      have hkept := (ih h.2).kept c
      rwa [written, if_neg (not_or.mpr h.1)] at hkept

theorem flatMap_written_of_braceless (h : Braceless cs) : cs.flatMap written = cs :=
  ((spends_of_braceless h).unspent rfl).symm

theorem Spends.filled (h : Spends rest text fields) (hspans : field.Spans cs rest)
    (hshown : Braceless shown) :
    Spends (openBrace :: cs) (shown ++ text) (fields + field.layout.count openBrace + 1) := by
  obtain ⟨hbalanced, front, hfront, rfl⟩ := hspans
  obtain ⟨hopen, hclose⟩ := braceless_iff_count.mp hfront
  obtain ⟨hvopen, hvclose⟩ := braceless_iff_count.mp hshown
  have hne : openBrace ≠ closeBrace := by decide
  constructor
  · rw [List.count_cons_self, List.count_append, List.count_append, List.count_cons_of_ne hne.symm,
      List.count_append, h.opened, hopen, hvopen]
    omega
  · rw [List.count_cons_of_ne hne, List.count_append, List.count_append, List.count_cons_self,
      List.count_append, h.closed, hclose, hvclose, hbalanced]
    omega
  · intro hfields
    cases hfields

/-- The code of a layout opens as many fields as it closes, if the layout itself does. -/
theorem Spends.balanced {code : List Char} (h : Spends field.layout code fields)
    (hbalanced : field.layout.count closeBrace = field.layout.count openBrace) :
    code.count openBrace = code.count closeBrace := by
  rw [h.opened, h.closed] at hbalanced
  omega

/-- What a character stands for in a template, in front of what the rest is filled to. -/
theorem exists_of_fillFrom_written
    (h : fillFrom objects args depth numbering (written c ++ cs) = .ok (text, last)) :
    ∃ behind, fillFrom objects args depth numbering cs = .ok (behind, last) ∧
      text = c :: behind := by
  rw [written] at h
  split at h
  · next hc =>
      rw [List.cons_append, List.singleton_append, fillFrom.eq_def] at h
      dsimp only at h
      rw [if_pos (by simpa using hc), if_pos rfl] at h
      obtain ⟨⟨behind, last'⟩, hbehind, h⟩ := exists_of_bind_eq_ok h
      cases h
      exact ⟨behind, hbehind, rfl⟩
  · next hc =>
      rw [List.singleton_append, fillFrom.eq_def] at h
      dsimp only at h
      rw [if_neg (by simpa using hc)] at h
      obtain ⟨⟨behind, last'⟩, hbehind, h⟩ := exists_of_bind_eq_ok h
      cases h
      exact ⟨behind, hbehind, rfl⟩

/-- The code of the layout that a field is filled with: the layout itself if no field is opened in
it, and otherwise what it is filled to. -/
inductive CodeOf (objects : Objects) (args : List String) (depth : Nat) (numbering : Numbering)
    (field : Field) : List Char → Numbering → Prop
  | plain (hplain : openBrace ∉ field.layout) :
      CodeOf objects args depth numbering field field.layout numbering
  | filled {inner : Nat} {code : List Char} {last : Numbering} (hdepth : depth = inner + 1)
      (hcode : fillFrom objects args inner numbering field.layout = .ok (code, last)) :
      CodeOf objects args depth numbering field code last

/-- What a field is filled to, in front of what the rest is filled to. -/
theorem exists_of_fillFrom_field (hread : readField (c :: cs) = .ok (field, rest))
    (hc : c ≠ openBrace)
    (h : fillFrom objects args depth numbering (openBrace :: c :: cs) = .ok (text, last)) :
    ∃ value code shown behind numbering₁ numbering₂,
      field.value objects args numbering = .ok (value, numbering₁) ∧
      CodeOf objects args depth numbering₁ field code numbering₂ ∧
      layOut objects code value = .ok shown ∧
      fillFrom objects args depth numbering₂ rest = .ok (behind, last) ∧
      text = shown ++ behind := by
  have hclose : openBrace ≠ closeBrace := by decide
  rw [fillFrom.eq_def] at h
  dsimp only at h
  rw [if_pos (by decide), if_neg hc, if_neg hclose] at h
  split at h
  · next fault hread' => cases hread.symm.trans hread'
  · next field' rest' hread' =>
      cases hread.symm.trans hread'
      obtain ⟨⟨value, numbering₁⟩, hvalue, h⟩ := exists_of_bind_eq_ok h
      obtain ⟨code, numbering₂, hcode, h⟩ : ∃ code numbering₂,
          CodeOf objects args depth numbering₁ field code numbering₂ ∧ (do
            let shown ← layOut objects code value
            let behind ← fillFrom objects args depth numbering₂ rest
            return (shown ++ behind.1, behind.2)) = .ok (text, last) := by
        split at h
        · cases depth with
          | zero => cases h
          | succ inner =>
              obtain ⟨⟨code, numbering₂⟩, hcode, h⟩ := exists_of_bind_eq_ok h
              exact ⟨code, numbering₂, .filled rfl hcode, h⟩
        · next hplain => exact ⟨field.layout, numbering₁, .plain (by simpa using hplain), h⟩
      obtain ⟨shown, hshown, h⟩ := exists_of_bind_eq_ok h
      obtain ⟨⟨behind, last'⟩, hbehind, h⟩ := exists_of_bind_eq_ok h
      cases h
      exact ⟨value, code, shown, behind, numbering₁, numbering₂, hvalue, hcode, hshown, hbehind,
        rfl⟩

/-- Every template that can be filled spends its braces so, where objects bring none. -/
theorem exists_spends (hobjects : objects.BringNoBraces)
    (hargs : ∀ arg ∈ args, IsBraceless arg)
    (h : fillFrom objects args depth numbering cs = .ok (text, last)) :
    ∃ fields, Spends cs text fields := by
  induction depth, numbering, cs using fillFrom.induct generalizing text last with
  | case1 depth numbering =>
      rw [fillFrom_nil] at h
      cases h
      exact ⟨0, spends_nil⟩
  | case2 depth numbering c hc =>
      rw [fillFrom.eq_def] at h
      dsimp only at h
      rw [if_pos hc] at h
      cases h
  | case3 depth numbering c cs hc ih =>
      have hwritten : c :: c :: cs = written c ++ cs := by
        rw [written, if_pos (by simpa using hc)]
        rfl
      rw [hwritten] at h ⊢
      obtain ⟨behind, hbehind, rfl⟩ := exists_of_fillFrom_written h
      obtain ⟨fields, hspends⟩ := ih hbehind
      exact ⟨fields, hspends.kept c⟩
  | case4 depth numbering d cs hclose hd =>
      rw [fillFrom.eq_def] at h
      dsimp only at h
      rw [if_pos hclose, if_neg hd, if_pos rfl] at h
      cases h
  | case5 depth numbering c hc d cs hd hclose fault hread =>
      rw [fillFrom.eq_def] at h
      dsimp only at h
      rw [if_pos hc, if_neg hd, if_neg hclose] at h
      split at h
      · cases h
      · next field rest hread' => cases hread.symm.trans hread'
  | case6 depth numbering c hc d cs hd hclose field rest hread hlength ihrest ihlayout =>
      obtain rfl : c = openBrace := by simpa [hclose] using hc
      obtain ⟨value, code, shown, behind, numbering₁, numbering₂, hvalue, hcode, hshown, hbehind,
        rfl⟩ := exists_of_fillFrom_field hread hd h
      obtain ⟨hname, hquoting, hchars⟩ := braceless_of_value hobjects hargs hvalue
      have hspans := spans_of_readField hread hname hquoting
      obtain ⟨inner, hinner⟩ : ∃ inner, Spends field.layout code inner := by
        cases hcode with
        | plain hplain =>
            have hopen := List.count_eq_zero.mpr hplain
            have hbraceless := braceless_iff_count.mpr ⟨hopen, hspans.1.trans hopen⟩
            exact ⟨0, spends_of_braceless hbraceless⟩
        | filled hdepth hcode =>
            subst hdepth
            exact ihlayout _ hcode
      obtain ⟨fields, hspends⟩ := ihrest _ hbehind
      have hbalanced := hinner.balanced hspans.1
      exact ⟨_, hspends.filled hspans (braceless_of_layOut hobjects hchars hbalanced hshown)⟩
  | case7 depth numbering c cs hc ih =>
      have hwritten : c :: cs = written c ++ cs := by
        rw [written, if_neg (by simpa using hc)]
        rfl
      rw [hwritten] at h ⊢
      obtain ⟨behind, hbehind, rfl⟩ := exists_of_fillFrom_written h
      obtain ⟨fields, hspends⟩ := ih hbehind
      exact ⟨fields, hspends.kept c⟩

/-- How many characters stand in front of the first brace of a text. -/
def plainWidth (cs : List Char) : Nat :=
  (cs.takeWhile fun c => c ≠ openBrace ∧ c ≠ closeBrace).length

theorem plainWidth_append (h : Braceless ds) :
    plainWidth (ds ++ cs) = ds.length + plainWidth cs := by
  have hplain : ∀ c ∈ ds, decide (c ≠ openBrace ∧ c ≠ closeBrace) = true :=
    fun c hc => decide_eq_true (h c hc)
  rw [plainWidth, List.takeWhile_append_of_pos hplain, List.length_append, plainWidth]

theorem plainWidth_append_of_not (h : ¬ Braceless cs) :
    plainWidth (cs ++ ds) = plainWidth cs := by
  induction cs with
  | nil => exact absurd braceless_nil h
  | cons c cs ih =>
      rw [plainWidth, plainWidth, List.cons_append, List.takeWhile_cons, List.takeWhile_cons]
      split
      · next hc =>
          have hcs : ¬ Braceless cs := fun hcs =>
            h (braceless_cons_iff.mpr ⟨of_decide_eq_true hc, hcs⟩)
          exact congrArg (· + 1) (ih hcs)
      · rfl

theorem plainWidth_flatMap_written (cs : List Char) :
    plainWidth (cs.flatMap written) = plainWidth cs := by
  induction cs with
  | nil => rfl
  | cons c cs ih =>
      rw [List.flatMap_cons, written]
      split
      · next hc => rcases hc with rfl | rfl <;> rfl
      · next hc =>
          have hplain : Braceless [c] := List.forall_mem_singleton.mpr (not_or.mp hc)
          rw [plainWidth_append hplain, ih, ← plainWidth_append hplain]
          rfl

theorem plainWidth_flatMap_written_append (h : ¬ Braceless cs) :
    plainWidth (cs.flatMap written ++ ds) = plainWidth cs := by
  have hdoubled : ¬ Braceless (cs.flatMap written) := by
    intro hplain
    apply h
    intro c hc
    have hmem : c ∈ written c := by
      rw [written]
      split <;> exact List.mem_cons_self
    exact hplain c (List.mem_flatMap.mpr ⟨c, hc, hmem⟩)
  rw [plainWidth_append_of_not hdoubled, plainWidth_flatMap_written]

theorem count_cons_of_brace (hc : c = openBrace ∨ c = closeBrace) (cs : List Char) :
    (c :: cs).count openBrace + (c :: cs).count closeBrace =
      cs.count openBrace + cs.count closeBrace + 1 := by
  rcases hc with rfl | rfl
  · rw [List.count_cons_self, List.count_cons_of_ne (by decide)]
    omega
  · rw [List.count_cons_self, List.count_cons_of_ne (by decide)]
    omega

theorem plainWidth_add_count_le (cs : List Char) :
    plainWidth cs + cs.count openBrace + cs.count closeBrace ≤ cs.length := by
  induction cs with
  | nil => rfl
  | cons c cs ih =>
      rw [List.length_cons]
      by_cases hc : c = openBrace ∨ c = closeBrace
      · have hwidth : plainWidth (c :: cs) = 0 := by rcases hc with rfl | rfl <;> rfl
        have hcount := count_cons_of_brace hc cs
        omega
      · have hplain : Braceless [c] := List.forall_mem_singleton.mpr (not_or.mp hc)
        have hwidth : plainWidth (c :: cs) = 1 + plainWidth cs := plainWidth_append hplain
        rw [hwidth, List.count_cons_of_ne (not_or.mp hc).1, List.count_cons_of_ne (not_or.mp hc).2]
        omega

theorem length_flatMap_written (cs : List Char) :
    (cs.flatMap written).length = cs.length + cs.count openBrace + cs.count closeBrace := by
  induction cs with
  | nil => rfl
  | cons c cs ih =>
      rw [List.flatMap_cons, List.length_append, ih, List.length_cons]
      by_cases hc : c = openBrace ∨ c = closeBrace
      · have hcount := count_cons_of_brace hc cs
        rw [written, if_pos hc, List.length_cons, List.length_singleton]
        omega
      · rw [written, if_neg hc, List.count_cons_of_ne (not_or.mp hc).1,
          List.count_cons_of_ne (not_or.mp hc).2, List.length_singleton]
        omega

theorem reverse_flatMap_written (cs : List Char) :
    (cs.flatMap written).reverse = cs.reverse.flatMap written := by
  rw [List.reverse_flatMap]
  congr 1
  funext c
  rw [Function.comp_apply, written]
  split <;> rfl

/-- A text with its braces doubled is too short to hold another text of as many braces besides. -/
theorem append_ne_flatMap_written {front first between second behind before after : List Char}
    (hfront : Braceless front) (hne : between ≠ []) (hbehind : Braceless behind)
    (hbefore : Braceless before) (hafter : Braceless after) (hfirst : ¬ Braceless first)
    (hsecond : ¬ Braceless second) (hopen : first.count openBrace = second.count openBrace)
    (hclose : first.count closeBrace = second.count closeBrace) :
    front ++ first ++ between ++ second ++ behind ≠
      before ++ first.flatMap written ++ after := by
  intro heq
  have hlength := congrArg List.length heq
  have hfrontWidth : front.length + plainWidth first = before.length + plainWidth first := by
    have hwidths := congrArg plainWidth heq
    simp only [List.append_assoc] at hwidths
    rwa [plainWidth_append hfront, plainWidth_append_of_not hfirst, plainWidth_append hbefore,
      plainWidth_flatMap_written_append hfirst] at hwidths
  have hbehindWidth : behind.length + plainWidth second.reverse =
      after.length + plainWidth first.reverse := by
    have hwidths := congrArg (plainWidth ·.reverse) heq
    simp only [List.reverse_append, List.append_assoc, reverse_flatMap_written] at hwidths
    rw [← braceless_reverse_iff] at hbehind hafter hfirst hsecond
    rwa [plainWidth_append hbehind, plainWidth_append_of_not hsecond, plainWidth_append hafter,
      plainWidth_flatMap_written_append hfirst, List.length_reverse, List.length_reverse]
      at hwidths
  have hwidth := plainWidth_add_count_le second.reverse
  have hpos := List.length_pos_iff.mpr hne
  simp only [List.length_append, length_flatMap_written, List.count_reverse,
    List.length_reverse] at hlength hwidth
  omega

/-- Two parts of a template with something between them that both stand in what the template is
filled to: neither has a brace. -/
theorem braceless_of_isInfix {front first between second behind : List Char}
    (hfront : Braceless front) (hbetween : Braceless between) (hne : between ≠ [])
    (hbehind : Braceless behind)
    (h : Spends (front ++ first ++ between ++ second ++ behind) text fields)
    (hfirst : first <:+: text) (hsecond : second <:+: text) :
    Braceless first ∧ Braceless second := by
  obtain ⟨hopened, hclosed, hunspent⟩ := h
  obtain ⟨hfopen, hfclose⟩ := braceless_iff_count.mp hfront
  obtain ⟨hbopen, hbclose⟩ := braceless_iff_count.mp hbetween
  obtain ⟨heopen, heclose⟩ := braceless_iff_count.mp hbehind
  have hsopen := hsecond.sublist.count_le openBrace
  have hsclose := hsecond.sublist.count_le closeBrace
  -- All braces of the text stand in each of the two parts, and none was spent on a field.
  obtain ⟨before, after, rfl⟩ := hfirst
  simp only [List.count_append, hfopen, hbopen, heopen] at hopened hsopen
  simp only [List.count_append, hfclose, hbclose, heclose] at hclosed hsclose
  have hfields : fields = 0 := by omega
  have hopen : first.count openBrace = second.count openBrace := by omega
  have hclose : first.count closeBrace = second.count closeBrace := by omega
  have hiff : Braceless first ↔ Braceless second := by
    rw [braceless_iff_count, braceless_iff_count, hopen, hclose]
  by_cases hplain : Braceless first
  · exact ⟨hplain, hiff.mp hplain⟩
  · have hbefore : Braceless before := braceless_iff_count.mpr ⟨by omega, by omega⟩
    have hafter : Braceless after := braceless_iff_count.mpr ⟨by omega, by omega⟩
    have htemplate := hunspent hfields
    rw [List.flatMap_append, List.flatMap_append, flatMap_written_of_braceless hbefore,
      flatMap_written_of_braceless hafter] at htemplate
    exact absurd htemplate (append_ne_flatMap_written hfront hne hbehind hbefore hafter hplain
      (mt hiff.mpr hplain) hopen hclose)

theorem isBraceless_of_fill {front first between second behind said : String}
    (hobjects : objects.BringNoBraces) (hargs : ∀ arg ∈ args, IsBraceless arg)
    (hfront : IsBraceless front) (hbetween : IsBraceless between) (hne : between.toList ≠ [])
    (hbehind : IsBraceless behind)
    (h : fill objects (front ++ first ++ between ++ second ++ behind) args = .ok said)
    (hfirst : first.toList <:+: said.toList) (hsecond : second.toList <:+: said.toList) :
    IsBraceless first ∧ IsBraceless second := by
  obtain ⟨⟨text, last⟩, hfill, h⟩ := exists_of_bind_eq_ok h
  cases h
  obtain ⟨fields, hspends⟩ := exists_spends hobjects hargs hfill
  simp only [String.toList_append] at hspends
  rw [String.toList_ofList] at hfirst hsecond
  exact braceless_of_isInfix hfront hbetween hne hbehind hspends hfirst hsecond

end Template

end Contractum.Text
