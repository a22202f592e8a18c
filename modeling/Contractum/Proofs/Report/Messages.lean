import Contractum.Proofs.Report.Templates
import Contractum.Report.Fault

/-!
# Problems that can be said

A problem has a message when its template is plain and the arguments can be written. All
problems of readings and steps are of this kind but one: a division of a number by zero
whose digits are too many. That one is a defect instead.
-/

namespace Contractum

open Text

/-- A problem that has a message on every host. -/
def Problem.Sayable (p : Problem) : Prop :=
  ∀ host, ∃ said, p.message host = .ok said

variable {p : Problem} {args kinds : List String} {before after text : String}

theorem Problem.Sayable.settle (h : p.Sayable) (host : Host) :
    (Fault.problem p).settle host = .problem p := by
  obtain ⟨said, hsaid⟩ := h host
  rw [Fault.settle, hsaid]

/-- What can be filled with the emphasised arguments can be said. -/
theorem Problem.sayable_of_fill {template : String}
    (hwording : p.cause.wording p.text = .ok (template, args))
    (hfill : ∀ host : Host, ∃ said,
      Template.fill host.objects template (args.map host.painting.bold) = .ok said) :
    p.Sayable := by
  intro host
  obtain ⟨said, hsaid⟩ := hfill host
  have hworded : (Template.fill host.objects template (args.map host.painting.bold)).mapError
      Defect.template = .ok said := by
    rw [hsaid]
    rfl
  rw [message, hwording]
  simp only [bind, Except.bind, hworded]
  split <;> exact ⟨_, rfl⟩

theorem Problem.sayable_of_hole {arg : String} (hbefore : IsBraceless before)
    (hafter : IsBraceless after)
    (hwording : p.cause.wording p.text = .ok (before ++ Template.hole ++ after, arg :: args)) :
    p.Sayable :=
  sayable_of_fill hwording fun _ => ⟨_, Template.fill_hole hbefore hafter⟩

/-- A template of its own is filled with its emphasised arguments. -/
theorem Problem.message_general_eq (template : String) (args : List String) (host : Host) :
    (Problem.general template args).message host =
      (Template.fill host.objects template (args.map host.painting.bold)).mapError .template := by
  change ((Template.fill host.objects template (args.map host.painting.bold)).mapError
    Defect.template >>= fun said => .ok said) = _
  cases Template.fill host.objects template (args.map host.painting.bold) <;> rfl

/-- A sentence without braces says itself. -/
theorem Problem.message_sentence (h : IsBraceless text) (host : Host) :
    (Problem.sentence text).message host = .ok text := by
  rw [sentence, message_general_eq, Template.fill_plain h]
  rfl

theorem Problem.sayable_sentence (h : IsBraceless text) : (Problem.sentence text).Sayable :=
  fun host => ⟨text, message_sentence h host⟩

/-- A template with one empty field says its first argument there, with emphasis. -/
theorem Problem.message_general {arg : String} (hbefore : IsBraceless before)
    (hafter : IsBraceless after) (host : Host) :
    (Problem.general (before ++ Template.hole ++ after) (arg :: args)).message host =
      .ok (before ++ host.painting.bold arg ++ after) := by
  rw [message_general_eq, List.map_cons, Template.fill_hole hbefore hafter]
  rfl

theorem Problem.sayable_general {arg : String} (hbefore : IsBraceless before)
    (hafter : IsBraceless after) :
    (Problem.general (before ++ Template.hole ++ after) (arg :: args)).Sayable :=
  fun host => ⟨_, message_general hbefore hafter host⟩

/-- How a problem is shown does not matter for its message. -/
theorem Problem.Sayable.undiagnosed (h : p.Sayable) : p.undiagnosed.Sayable := h

theorem Problem.sayable_freeVariable (name text : String) (start stop : Int) :
    (Problem.freeVariable name text start stop).Sayable := by
  rw [freeVariable]
  split
  · exact sayable_of_hole (by decide) (by decide) rfl
  · exact sayable_of_hole (by decide) (by decide) rfl

theorem Problem.sayable_notRedex (form : String) : (Problem.notRedex form).Sayable := by
  have hquote : IsBraceless "'" := by decide
  have hrefusal : IsBraceless "' is not a redex" := by decide
  exact sayable_of_hole hquote hrefusal rfl

/-- A division by zero can be said when the dividend can be written. -/
theorem Problem.sayable_divisionByZero {dividend : Int} (h : Text.isWritable dividend = true) :
    (Problem.divisionByZero dividend).Sayable := by
  have hwording : (Problem.divisionByZero dividend).cause.wording
      (Problem.divisionByZero dividend).text =
        .ok ("division by zero in '" ++ Template.hole ++ "'", [Cause.quotientText dividend]) := by
    rw [divisionByZero, Cause.wording, if_pos h]
  exact sayable_of_hole (by decide) (by decide) hwording

theorem Kind.isBraceless_label (kind : Kind) : IsBraceless kind.label := by
  cases kind with
  | mark m => cases m <;> decide
  | var | constr | literal | finish | unknown => decide

namespace Cause

theorem isBraceless_kindWord {kind : String} (h : IsBraceless kind) :
    IsBraceless (kindWord kind) := by
  rw [kindWord]
  split
  · exact h
  · have hquote : IsBraceless "\"" := by decide
    exact (hquote.append h).append hquote

theorem isBraceless_intercalate {separator : String} (hseparator : IsBraceless separator)
    {words : List String} (hwords : ∀ word ∈ words, IsBraceless word) :
    IsBraceless (separator.intercalate words) := by
  induction words with
  | nil =>
      rw [String.intercalate_nil]
      decide
  | cons word words ih =>
      obtain ⟨hword, hrest⟩ := List.forall_mem_cons.mp hwords
      cases words with
      | nil =>
          rw [String.intercalate_singleton]
          exact hword
      | cons other words =>
          rw [String.intercalate_cons_cons]
          exact (hword.append hseparator).append (ih hrest)

/-- Any kinds can be listed, if there is one. -/
theorem exists_kindList (hne : kinds ≠ []) (hkinds : ∀ kind ∈ kinds, IsBraceless kind) :
    ∃ words, kindList kinds = .ok words ∧ IsBraceless words := by
  have hwords : ∀ word ∈ kinds.map kindWord, IsBraceless word := by
    intro word hword
    obtain ⟨kind, hkind, rfl⟩ := List.mem_map.mp hword
    exact isBraceless_kindWord (hkinds kind hkind)
  rw [kindList]
  split
  · next hnil => exact absurd (List.map_eq_nil_iff.mp hnil) hne
  · next word hlist =>
      rw [hlist] at hwords
      exact ⟨word, rfl, hwords word (List.mem_singleton_self word)⟩
  · next word other hlist =>
      rw [hlist, List.forall_mem_cons, List.forall_mem_singleton] at hwords
      have hor : IsBraceless " or " := by decide
      exact ⟨_, rfl, (hwords.1.append hor).append hwords.2⟩
  · next word other more _ hlist =>
      rw [hlist] at hwords
      have hor : IsBraceless ", or " := by decide
      have hcomma : IsBraceless ", " := by decide
      have hbut := isBraceless_intercalate hcomma fun w hw =>
        hwords w (List.dropLast_subset _ hw)
      have hlast : IsBraceless ((word :: other :: more).getLastD "") :=
        hwords _ List.getLastD_mem_cons
      exact ⟨_, rfl, (hbut.append hor).append hlast⟩

/-- The template for another token than the expected ones is plain around the text. -/
theorem exists_gotTemplate {got : String} (hne : kinds ≠ [])
    (hkinds : ∀ kind ∈ kinds, IsBraceless kind) (hgot : IsBraceless got) (text : String) :
    ∃ template, gotTemplate kinds got text = .ok template ∧
      ∀ objects arg, ∃ said, Template.fill objects template [arg] = .ok said := by
  obtain ⟨words, hwords, hplain⟩ := exists_kindList hne hkinds
  have hexpected : IsBraceless "expected " := by decide
  have hcomma : IsBraceless ", got " := by decide
  have hfront : IsBraceless ("expected " ++ words ++ ", got " ++ got) :=
    ((hexpected.append hplain).append hcomma).append hgot
  rw [gotTemplate, hwords]
  simp only [bind, Except.bind, pure, Except.pure]
  refine ⟨_, rfl, ?_⟩
  intro objects arg
  split
  · exact ⟨_, Template.fill_plain (hfront.append (by decide))⟩
  · have hin : IsBraceless " in '" := by decide
    have hquote : IsBraceless "'" := by decide
    have hfill : Template.fill objects ("expected " ++ words ++ ", got " ++ got ++ " in '" ++
        Template.hole ++ "'") [arg] = _ :=
      Template.fill_hole (hfront.append hin) hquote
    simp only [String.append_assoc] at hfill ⊢
    exact ⟨_, hfill⟩

end Cause

namespace Problem

variable {got : String}

theorem sayable_of_gotTemplate (hne : kinds ≠ []) (hkinds : ∀ kind ∈ kinds, IsBraceless kind)
    (hgot : IsBraceless got) (hwording : p.cause.wording p.text =
      (do return (← Cause.gotTemplate kinds got text, [text]))) : p.Sayable := by
  obtain ⟨template, htemplate, hfill⟩ := Cause.exists_gotTemplate hne hkinds hgot text
  rw [htemplate] at hwording
  exact sayable_of_fill hwording fun host => hfill host.objects _

theorem sayable_expected (hne : kinds ≠ []) (hkinds : ∀ kind ∈ kinds, IsBraceless kind)
    (hgot : IsBraceless got) (text : String) (start stop : Int) :
    (Problem.expected kinds got text start stop).Sayable :=
  sayable_of_gotTemplate hne hkinds hgot rfl

theorem sayable_wrongKind (hne : kinds ≠ []) (hkinds : ∀ kind ∈ kinds, IsBraceless kind)
    (hgot : IsBraceless got) (text : String) (start stop : Int) :
    (Problem.wrongKind kinds got text start stop).Sayable :=
  sayable_of_gotTemplate hne hkinds hgot rfl

theorem sayable_unknownChar (hne : kinds ≠ []) (hkinds : ∀ kind ∈ kinds, IsBraceless kind)
    (char text : String) (start : Int) : (Problem.unknownChar kinds char text start).Sayable :=
  sayable_of_gotTemplate hne hkinds Kind.unknown.isBraceless_label rfl

end Problem

end Contractum
