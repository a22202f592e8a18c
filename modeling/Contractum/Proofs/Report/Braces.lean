import Contractum.Proofs.Report.Templates
import Contractum.Proofs.Results
import Mathlib.Data.List.TakeWhile

/-!
# What fields show is braceless

Nothing that a field shows brings braces into a text, unless its argument holds some or an object
brings them. Items and escapes of braceless texts are braceless, and a layout pads with a brace only
if its code begins with that brace and holds no other, so no layout does whose code opens as many
fields as it closes.
-/

namespace Contractum.Text

variable {cs rest : List Char} {c : Char}

theorem braceless_takeWhile_isDigit (cs : List Char) : Braceless (cs.takeWhile isDigit) :=
  braceless_of_forall rfl rfl fun _ hd => List.mem_takeWhile_imp hd

theorem braceless_of_dropWhile_isDigit (h : Braceless (cs.dropWhile isDigit)) : Braceless cs := by
  rw [← List.takeWhile_append_dropWhile (p := isDigit) (l := cs), braceless_append_iff]
  exact ⟨braceless_takeWhile_isDigit cs, h⟩

theorem braceless_of_readCount {count : Option Nat} (hread : readCount cs = .ok (count, rest))
    (h : Braceless rest) : Braceless cs := by
  rw [readCount] at hread
  split at hread
  · cases hread
    exact h
  · split at hread
    · cases hread
      exact braceless_of_dropWhile_isDigit h
    · cases hread

namespace Layout

variable {marks : List Char} {mark : Option Char} {code : List Char} {layout : Layout}

theorem braceless_of_readMark (hmarks : Braceless marks) (hread : readMark marks cs = (mark, rest))
    (h : Braceless rest) : Braceless cs := by
  cases cs with
  | nil => exact braceless_nil
  | cons c cs =>
      rw [readMark] at hread
      split at hread
      · next hc =>
          cases hread
          exact braceless_cons_iff.mpr ⟨hmarks c hc, h⟩
      · cases hread
        exact h

theorem braceless_of_readGrouping (hread : readGrouping cs = .ok (mark, rest))
    (h : Braceless rest) : Braceless cs := by
  unfold readGrouping at hread
  split at hread
  · cases hread
  · cases hread
  · split at hread
    · next hc =>
        cases hread
        rcases (by simpa using hc) with rfl | rfl
        · exact braceless_cons_iff.mpr ⟨by decide, h⟩
        · exact braceless_cons_iff.mpr ⟨by decide, h⟩
    · cases hread
      exact h
  · exact braceless_nil

theorem braceless_of_readPrecision {precision : Option Nat}
    (hread : readPrecision cs = .ok (precision, rest)) (h : Braceless rest) : Braceless cs := by
  unfold readPrecision at hread
  split at hread
  · obtain ⟨⟨count, tail⟩, hcount, hread⟩ := exists_of_bind_eq_ok hread
    cases count with
    | none => cases hread
    | some count =>
        cases hread
        exact braceless_cons_iff.mpr ⟨by decide, braceless_of_readCount hcount h⟩
  · cases hread
    exact h

theorem eq_of_checkForm {grouping : Option Char} {form : Char}
    (h : checkForm grouping form = .ok ()) : form = 's' := by
  by_contra hform
  unfold checkForm at h
  rw [if_pos hform] at h
  cases grouping with
  | none => cases h
  | some mark =>
      dsimp only at h
      split at h <;> cases h

theorem ne_brace_of_ofChar? {place : Place} (h : Place.ofChar? c = some place) :
    c ≠ Template.openBrace ∧ c ≠ Template.closeBrace := by
  constructor <;> rintro rfl <;> cases h

theorem mem_of_readMark {m : Char} (h : readMark marks cs = (some m, rest)) : m ∈ marks := by
  cases cs with
  | nil => cases h
  | cons c cs =>
      rw [readMark] at h
      split at h
      · next hc =>
          cases h
          exact hc
      · cases h

/-- What a code is filled with stands in front of all else. -/
theorem readPlace_cases {fill : Option Char} {place : Place}
    (hread : readPlace code = (fill, place, rest)) (h : Braceless rest) :
    fill = none ∧ Braceless code ∨
      ∃ c tail, fill = some c ∧ code = c :: tail ∧ Braceless tail := by
  match code with
  | [] => exact .inl ⟨by cases hread; rfl, braceless_nil⟩
  | [c] =>
      rw [readPlace] at hread
      split at hread
      · next hplace =>
          cases hread
          exact .inl ⟨rfl, braceless_cons_iff.mpr ⟨ne_brace_of_ofChar? hplace, h⟩⟩
      · cases hread
        exact .inl ⟨rfl, h⟩
  | c :: d :: tail =>
      rw [readPlace] at hread
      split at hread
      · next hplace =>
          cases hread
          exact .inr ⟨c, _, rfl, rfl, braceless_cons_iff.mpr ⟨ne_brace_of_ofChar? hplace, h⟩⟩
      · next hplace =>
          cases hread
          exact .inl ⟨rfl, braceless_cons_iff.mpr ⟨ne_brace_of_ofChar? hplace, h⟩⟩
      · cases hread
        exact .inl ⟨rfl, h⟩

/-- A code of a layout holds no braces but the character to fill with, which is its first one if
it is a brace. -/
theorem ofCode_cases (h : ofCode code = .ok layout) :
    (layout.fill ≠ Template.openBrace ∧ layout.fill ≠ Template.closeBrace) ∨
      ∃ tail, code = layout.fill :: tail ∧ Braceless tail := by
  rw [ofCode] at h
  rcases hplace : readPlace code with ⟨fill, place, cs₀⟩
  rcases hsign : readMark [' ', '+', '-'] cs₀ with ⟨sign, cs₁⟩
  rcases hzero : readMark ['z'] cs₁ with ⟨zero, cs₂⟩
  rcases halternate : readMark ['#'] cs₂ with ⟨alternate, cs₃⟩
  rcases hpadding : (if fill.isNone then readMark ['0'] cs₃ else (none, cs₃)) with ⟨padding, cs₄⟩
  simp -zeta only [hplace, hsign, hzero, halternate, hpadding] at h
  obtain ⟨⟨width, cs₅⟩, hwidth, h⟩ := exists_of_bind_eq_ok h
  obtain ⟨⟨grouping, cs₆⟩, hgrouping, h⟩ := exists_of_bind_eq_ok h
  obtain ⟨⟨precision, cs₇⟩, hprecision, h⟩ := exists_of_bind_eq_ok h
  have hlast : cs₇ = [] ∨ cs₇ = ['s'] := by
    rcases cs₇ with _ | ⟨form, _ | ⟨other, more⟩⟩
    · exact .inl rfl
    · obtain ⟨_, hform, -⟩ := exists_of_bind_eq_ok h
      exact .inr (by rw [eq_of_checkForm hform])
    · cases h
  have hfill : layout.fill = (fill.or padding).getD ' ' := by
    rcases hlast with rfl | rfl
    all_goals
      obtain ⟨_, -, h⟩ := exists_of_bind_eq_ok h
      dsimp only at h
      split at h
      · cases h
      split at h
      · cases h
      split at h
      · cases h
      split at h
      · cases h
      · cases h
        rfl
  have h₇ : Braceless cs₇ := by rcases hlast with rfl | rfl <;> decide
  have h₅ : Braceless cs₅ :=
    braceless_of_readGrouping hgrouping (braceless_of_readPrecision hprecision h₇)
  have h₄ : Braceless cs₄ := braceless_of_readCount hwidth h₅
  have h₃ : Braceless cs₃ := by
    split at hpadding
    · exact braceless_of_readMark (by decide) hpadding h₄
    · cases hpadding
      exact h₄
  have h₂ : Braceless cs₂ := braceless_of_readMark (by decide) halternate h₃
  have h₁ : Braceless cs₁ := braceless_of_readMark (by decide) hzero h₂
  have h₀ : Braceless cs₀ := braceless_of_readMark (by decide) hsign h₁
  rcases readPlace_cases hplace h₀ with ⟨rfl, -⟩ | ⟨c, tail, rfl, rfl, htail⟩
  · left
    rw [hfill]
    cases padding with
    | none => decide
    | some m =>
        obtain rfl := List.mem_singleton.mp (mem_of_readMark hpadding)
        decide
  · right
    exact ⟨tail, by rw [hfill]; rfl, htail⟩

/-- A code that opens as many fields as it closes pads with no brace. -/
theorem fill_ne_brace (h : ofCode code = .ok layout)
    (hbalanced : code.count Template.openBrace = code.count Template.closeBrace) :
    layout.fill ≠ Template.openBrace ∧ layout.fill ≠ Template.closeBrace := by
  rcases ofCode_cases h with hplain | ⟨tail, hcode, htail⟩
  · exact hplain
  · obtain ⟨hopen, hclose⟩ := braceless_iff_count.mp htail
    rw [hcode, List.count_cons, List.count_cons, hopen, hclose] at hbalanced
    constructor
    · intro hfill
      rw [hfill] at hbalanced
      cases hbalanced
    · intro hfill
      rw [hfill] at hbalanced
      cases hbalanced

theorem braceless_apply
    (hfill : layout.fill ≠ Template.openBrace ∧ layout.fill ≠ Template.closeBrace)
    (h : Braceless cs) : Braceless (layout.apply cs) := by
  have hpad (n : Nat) : Braceless (List.replicate n layout.fill) := by
    intro c hc
    rw [List.eq_of_mem_replicate hc]
    exact hfill
  have hpadded {shown : List Char} (hshown : Braceless shown) (before after : Nat) :
      Braceless (List.replicate before layout.fill ++ shown ++
        List.replicate after layout.fill) := by
    rw [braceless_append_iff, braceless_append_iff]
    exact ⟨⟨hpad before, hshown⟩, hpad after⟩
  rw [apply]
  cases layout.precision with
  | none => exact hpadded h _ _
  | some count => exact hpadded (fun c hc => h c (List.mem_of_mem_take hc)) _ _

end Layout

theorem braceless_hexDigits (width n : Nat) : Braceless (hexDigits width n) := by
  have hdigit : ∀ d < 16, Braceless [hexDigit d] := by decide
  induction width generalizing n with
  | zero => exact braceless_nil
  | succ width ih =>
      rw [hexDigits, braceless_append_iff]
      exact ⟨ih _, hdigit _ (Nat.mod_lt n (by decide))⟩

theorem braceless_escape {shown : Char → Bool} {mark : Char} (h : Braceless [c]) :
    Braceless (escape shown mark c) := by
  have hback : Braceless ['\\'] := by decide
  have hcoded (form : Char) (hform : Braceless [form]) (width : Nat) :
      Braceless ('\\' :: form :: hexDigits width c.toNat) :=
    (braceless_append_iff.mpr ⟨hback, braceless_append_iff.mpr
      ⟨hform, braceless_hexDigits width c.toNat⟩⟩ :)
  unfold escape
  split
  · exact braceless_append_iff.mpr ⟨hback, h⟩
  split
  · decide
  split
  · decide
  split
  · decide
  split
  · exact h
  split
  · exact hcoded 'x' (by decide) 2
  split
  · exact hcoded 'u' (by decide) 4
  · exact hcoded 'U' (by decide) 8

theorem braceless_quoteWith {shown : Char → Bool} (h : Braceless cs) :
    Braceless (quoteWith shown cs) := by
  have hmark : Braceless [quoteMark cs] := by
    rw [quoteMark]
    split <;> decide
  have hescapes : Braceless (cs.flatMap (escape shown (quoteMark cs))) := by
    intro d hd
    obtain ⟨c, hc, hd⟩ := List.mem_flatMap.mp hd
    exact braceless_escape (List.forall_mem_singleton.mpr (h c hc)) d hd
  rw [quoteWith, List.cons_append, ← List.singleton_append, braceless_append_iff,
    braceless_append_iff]
  exact ⟨hmark, hescapes, hmark⟩

theorem braceless_quoting {quoting : Quoting} (h : Braceless cs) :
    Braceless (quoting.apply cs) := by
  cases quoting with
  | plain => exact h
  | quoted | escaped => exact braceless_quoteWith h

/-- The characters of a value, as far as it is a text. -/
def Value.chars : Value → List Char
  | text cs => cs
  | object _ => []

/-- The characters of a key, as far as it is no position. -/
def Key.chars : Key → List Char
  | position _ => []
  | .name s => s.toList

namespace Objects

/-- The objects of a host do without braces: neither is any shown, nor is anything found by a name
that has some. -/
structure BringNoBraces (objects : Objects) : Prop where
  attributeOf {value found : Value} {name : String}
    (h : objects.attributeOf value name = .ok found) : IsBraceless name ∧ Braceless found.chars
  itemOf {handle : Nat} {key : Key} {found : Value} (h : objects.itemOf handle key = .ok found) :
    Braceless key.chars ∧ Braceless found.chars
  textOf {handle : Nat} {quoting : Quoting} {cs : List Char}
    (h : objects.textOf handle quoting = .ok cs) : Braceless cs
  layoutOf {handle : Nat} {code cs : List Char} (h : objects.layoutOf handle code = .ok cs) :
    Braceless cs

/-- A result, if a condition on it holds. -/
def allow (result : Except TemplateFault α) (allowed : α → Prop) [DecidablePred allowed] :
    Except TemplateFault α := do
  let found ← result
  if allowed found then return found else throw (.raised "" "")

/-- The objects of a host without what brings braces: it counts as missing. -/
def withoutBraces (objects : Objects) : Objects where
  attributeOf value name := allow (objects.attributeOf value name) fun found =>
    IsBraceless name ∧ Braceless found.chars
  itemOf handle key := allow (objects.itemOf handle key) fun found =>
    Braceless key.chars ∧ Braceless found.chars
  textOf handle quoting := allow (objects.textOf handle quoting) Braceless
  layoutOf handle code := allow (objects.layoutOf handle code) Braceless

theorem of_allow {α : Type} {result : Except TemplateFault α} {allowed : α → Prop}
    [DecidablePred allowed] {found : α} (h : allow result allowed = .ok found) :
    allowed found := by
  obtain ⟨found', -, h⟩ := exists_of_bind_eq_ok h
  split at h
  · next hallowed =>
      cases h
      exact hallowed
  · cases h

theorem bringNoBraces_withoutBraces (objects : Objects) : objects.withoutBraces.BringNoBraces where
  attributeOf := of_allow
  itemOf := of_allow
  textOf := of_allow
  layoutOf := of_allow

theorem allow_eq {α : Type} {result : Except TemplateFault α} {allowed : α → Prop}
    [DecidablePred allowed] (h : ∀ {found}, result = .ok found → allowed found) :
    allow result allowed = result := by
  cases result with
  | error fault => rfl
  | ok found => exact if_pos (h rfl)

/-- Where no object brings braces, nothing counts as missing. -/
theorem BringNoBraces.withoutBraces_eq {objects : Objects} (h : objects.BringNoBraces) :
    objects.withoutBraces = objects := by
  obtain ⟨attributeOf, itemOf, textOf, layoutOf⟩ := objects
  rw [withoutBraces, Objects.mk.injEq]
  refine ⟨?_, ?_, ?_, ?_⟩
  · funext value name
    exact allow_eq h.attributeOf
  · funext handle key
    exact allow_eq h.itemOf
  · funext handle quoting
    exact allow_eq h.textOf
  · funext handle code
    exact allow_eq h.layoutOf

end Objects

namespace Template

variable {objects : Objects} {args : List String} {numbering last : Numbering}
  {name text code : List Char} {value found : Value} {quoting : Option Char} {field : Field}

theorem braceless_of_position? {index : Nat} (h : position? name = .ok (some index)) :
    Braceless name := by
  obtain ⟨⟨count, rest⟩, hcount, h⟩ := exists_of_bind_eq_ok h
  cases hread : readCount name with
  | error fault =>
      rw [hread] at hcount
      cases hcount
  | ok result =>
      rw [hread] at hcount
      cases hcount
      cases rest with
      | nil => exact braceless_of_readCount hread braceless_nil
      | cons c rest => cases h

theorem braceless_of_getElem? {index : Nat} {fault : TemplateFault}
    (hargs : ∀ arg ∈ args, IsBraceless arg)
    (h : (match args[index]? with
      | some arg => Except.ok (arg.toList, numbering)
      | none => .error fault) = .ok (text, last)) : Braceless text := by
  split at h
  · next arg harg =>
      cases h
      exact hargs arg (List.mem_of_getElem? harg)
  · cases h

/-- Arguments are named by digits, or by nothing. -/
theorem braceless_of_argument (hargs : ∀ arg ∈ args, IsBraceless arg)
    (h : argument args numbering name = .ok (text, last)) : Braceless name ∧ Braceless text := by
  obtain ⟨index?, hindex, h⟩ := exists_of_bind_eq_ok h
  cases index? with
  | some index =>
      obtain ⟨numbering', -, h⟩ := exists_of_bind_eq_ok h
      exact ⟨braceless_of_position? hindex, braceless_of_getElem? hargs h⟩
  | none =>
      dsimp only at h
      split at h
      · next hempty =>
          obtain ⟨⟨index, numbering'⟩, -, h⟩ := exists_of_bind_eq_ok h
          rw [List.isEmpty_iff.mp hempty]
          exact ⟨braceless_nil, braceless_of_getElem? hargs h⟩
      · cases h

theorem braceless_of_takeWhile {p : Char → Bool} (hname : Braceless (cs.takeWhile p))
    (hrest : Braceless (cs.drop (cs.takeWhile p).length)) : Braceless cs := by
  rw [← List.prefix_iff_eq_append.mp (List.takeWhile_prefix (l := cs) p), braceless_append_iff]
  exact ⟨hname, hrest⟩

theorem braceless_of_bracketed (hname : Braceless (cs.takeWhile (· != ']')))
    (hrest : Braceless (cs.drop ((cs.takeWhile (· != ']')).length + 1))) : Braceless cs := by
  induction cs with
  | nil => exact braceless_nil
  | cons c cs ih =>
      rw [List.takeWhile_cons] at hname hrest
      split at hname
      · next hc =>
          rw [if_pos hc] at hrest
          rw [braceless_cons_iff] at hname ⊢
          exact ⟨hname.1, ih hname.2 hrest⟩
      · next hc =>
          rw [if_neg hc] at hrest
          obtain rfl : c = ']' := by simpa using hc
          exact braceless_cons_iff.mpr ⟨by decide, hrest⟩

theorem braceless_of_item {key : Key} (hobjects : objects.BringNoBraces)
    (hvalue : Braceless value.chars) (h : item objects value key = .ok found) :
    Braceless key.chars ∧ Braceless found.chars := by
  cases value with
  | object handle =>
      rw [item] at h
      exact hobjects.itemOf h
  | text cs =>
      cases key with
      | name name => cases h
      | position index =>
          rw [item] at h
          split at h
          · next c hc =>
              cases h
              exact ⟨braceless_nil,
                List.forall_mem_singleton.mpr (hvalue c (List.mem_of_getElem? hc))⟩
          · cases h

/-- Positions are digits, and all other keys are as they are written. -/
theorem braceless_of_key {index? : Option Nat} (hindex : position? name = .ok index?)
    (h : Braceless ((index?.map Key.position).getD (.name (String.ofList name))).chars) :
    Braceless name := by
  cases index? with
  | some index => exact braceless_of_position? hindex
  | none => simpa [Key.chars] using h

/-- Where objects bring no braces, a value without braces has only such parts, and their names have
none. -/
theorem braceless_of_part (hobjects : objects.BringNoBraces) (hvalue : Braceless value.chars)
    (h : part objects value name = .ok found) : Braceless name ∧ Braceless found.chars := by
  induction value, name using part.induct objects with
  | case1 value =>
      rw [part] at h
      cases h
      exact ⟨braceless_nil, hvalue⟩
  | case2 value cs name hempty =>
      rw [part, if_pos rfl] at h
      dsimp only at h
      rw [if_pos hempty] at h
      cases h
  | case3 value cs name hempty ih =>
      rw [part, if_pos rfl] at h
      dsimp only at h
      rw [if_neg hempty] at h
      obtain ⟨chosen, hattribute, h⟩ := exists_of_bind_eq_ok h
      obtain ⟨hname, hchars⟩ := hobjects.attributeOf hattribute
      obtain ⟨hrest, hfound⟩ := ih chosen hchars h
      rw [IsBraceless, String.toList_ofList] at hname
      have hcs := braceless_of_takeWhile hname hrest
      exact ⟨braceless_cons_iff.mpr ⟨by decide, hcs⟩, hfound⟩
  | case4 value cs name hpoint ih =>
      rw [part, if_neg hpoint, if_pos rfl] at h
      obtain ⟨index?, hindex, h⟩ := exists_of_bind_eq_ok h
      dsimp only at h
      split at h
      · cases h
      · obtain ⟨chosen, hitem, h⟩ := exists_of_bind_eq_ok h
        obtain ⟨hkey, hchars⟩ := braceless_of_item hobjects hvalue hitem
        obtain ⟨hrest, hfound⟩ := ih chosen hchars h
        have hcs := braceless_of_bracketed (braceless_of_key hindex hkey) hrest
        exact ⟨braceless_cons_iff.mpr ⟨by decide, hcs⟩, hfound⟩
  | case5 value c cs hpoint hbracket =>
      rw [part, if_neg hpoint, if_neg hbracket] at h
      cases h

theorem braceless_of_shown {quoting : Quoting} (hobjects : objects.BringNoBraces)
    (hvalue : Braceless value.chars) (h : shown objects quoting value = .ok text) :
    Braceless text := by
  cases value with
  | object handle => exact hobjects.textOf h
  | text cs =>
      cases h
      exact braceless_quoting hvalue

theorem braceless_of_quoted (hobjects : objects.BringNoBraces) (hvalue : Braceless value.chars)
    (h : quoted objects value quoting = .ok found) :
    (∀ c ∈ quoting, Braceless [c]) ∧ Braceless found.chars := by
  have hshown {form : Quoting} (h : Value.text <$> shown objects form value = .ok found) :
      Braceless found.chars := by
    cases htext : shown objects form value with
    | error fault =>
        rw [htext] at h
        cases h
    | ok text =>
        rw [htext] at h
        cases h
        exact braceless_of_shown hobjects hvalue htext
  unfold quoted at h
  split at h
  · cases h
    exact ⟨by rintro _ ⟨⟩, hvalue⟩
  · cases h
    exact ⟨by rintro _ ⟨⟩; decide, hvalue⟩
  · exact ⟨by rintro _ ⟨⟩; decide, hshown h⟩
  · exact ⟨by rintro _ ⟨⟩; decide, hshown h⟩
  · exact ⟨by rintro _ ⟨⟩; decide, hshown h⟩
  · cases h

/-- A field leads to braces only if its argument has some, and holds none outside its layout. -/
theorem braceless_of_value (hobjects : objects.BringNoBraces)
    (hargs : ∀ arg ∈ args, IsBraceless arg)
    (h : field.value objects args numbering = .ok (value, last)) :
    Braceless field.name ∧ (∀ c ∈ field.quoting, Braceless [c]) ∧ Braceless value.chars := by
  obtain ⟨⟨arg, numbering'⟩, harg, h⟩ := exists_of_bind_eq_ok h
  obtain ⟨chosen, hpart, h⟩ := exists_of_bind_eq_ok h
  obtain ⟨found, hquoted, h⟩ := exists_of_bind_eq_ok h
  cases h
  obtain ⟨hfirst, harg⟩ := braceless_of_argument hargs harg
  have hvalue : Braceless (Value.text arg).chars := harg
  obtain ⟨hrest, hchosen⟩ := braceless_of_part hobjects hvalue hpart
  obtain ⟨hquoting, hfound⟩ := braceless_of_quoted hobjects hchosen hquoted
  exact ⟨braceless_of_takeWhile hfirst hrest, hquoting, hfound⟩

/-- A value without braces is laid out without any, if the code opens as many fields as it
closes. -/
theorem braceless_of_layOut (hobjects : objects.BringNoBraces) (hvalue : Braceless value.chars)
    (hbalanced : code.count openBrace = code.count closeBrace)
    (h : layOut objects code value = .ok text) : Braceless text := by
  cases value with
  | object handle => exact hobjects.layoutOf h
  | text cs =>
      obtain ⟨layout, hlayout, h⟩ := exists_of_bind_eq_ok h
      cases h
      cases hcode : Layout.ofCode code with
      | error fault =>
          rw [hcode] at hlayout
          cases hlayout
      | ok result =>
          rw [hcode] at hlayout
          cases hlayout
          exact Layout.braceless_apply (Layout.fill_ne_brace hcode hbalanced) hvalue

end Template

end Contractum.Text
