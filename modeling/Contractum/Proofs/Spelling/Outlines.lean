import Contractum.Proofs.Spelling.Digits
import Contractum.Proofs.Spelling.Words
import Contractum.Term.Path
import Contractum.Term.Printer

/-!
# Outlines

An outline has no brackets. The headline of a node tells its form and what it holds besides its
children, and the form tells how many children there are. So the lines of a term show where they
end, whatever lines stand behind them, and no two terms have the same outline.

Names and numbers hold no line feeds and no slashes, which is why the lines can be told apart and
the two parts of a binding.
-/

namespace Contractum

open Text

/-- What a node holds besides its children. -/
inductive Head where
  | var (name : String) (id : Option Int)
  | constr (name : String)
  | lit (value : Int)
  | lam (param : String) (id : Option Int)
  | letIn (name : String) (id : Option Int)
  | app
  | arith (op : Op)
  | neg

namespace Head

/-- The headline of a node, which does not depend on its children. -/
def line : Head → String
  | var name id => "var " ++ Term.bindingLabel name id
  | constr name => "constr [" ++ name ++ "]"
  | lit value => "literal [" ++ integerText value ++ "]"
  | lam param id => "lambda " ++ Term.bindingLabel param id
  | letIn name id => "let " ++ Term.bindingLabel name id
  | app => "app"
  | arith op => String.singleton op.symbol
  | neg => "neg"

/-- The first two characters of a headline, which tell its form. -/
def initials : Head → List Char
  | var _ _ => ['v', 'a']
  | constr _ => ['c', 'o']
  | lit _ => ['l', 'i']
  | lam _ _ => ['l', 'a']
  | letIn _ _ => ['l', 'e']
  | app => ['a', 'p']
  | arith op => [op.symbol]
  | neg => ['n', 'e']

/-- How many children a node has. -/
def arity : Head → Nat
  | var _ _ | constr _ | lit _ => 0
  | lam _ _ | neg => 1
  | letIn _ _ | app | arith _ => 2

/-- Whether the name in a head is a word of its rule. -/
def IsWorded : Head → Prop
  | var x _ | lam x _ | letIn x _ => Rule.name.Allows x.toList
  | constr c => Rule.constr.Allows c.toList
  | lit _ | app | arith _ | neg => True

theorem take_two_line (g : Head) : g.line.toList.take 2 = g.initials := by
  cases g with
  | arith op => simp [line, initials]
  | app | neg => rfl
  | var | constr | lit | lam | letIn => simp [line, initials]

end Head

/-- The number of a binding, or a question mark for none. -/
def idText : Option Int → String
  | some n => integerText n
  | none => "?"

theorem bindingLabel_eq (name : String) (id : Option Int) :
    Term.bindingLabel name id = "[" ++ name ++ "/" ++ idText id ++ "]" := by
  cases id <;> rfl

theorem not_mem_idText {c : Char} (hc : isDigit c = false) (hsign : c ≠ '-') (hnone : c ≠ '?')
    (id : Option Int) : c ∉ (idText id).toList := by
  cases id with
  | none => simpa [idText] using hnone
  | some n => exact not_mem_integerText hc hsign n

theorem idText_injective : Function.Injective idText := by
  have hnone (n : Int) : integerText n ≠ "?" := by
    intro h
    apply not_mem_integerText (c := '?') rfl (by decide) n
    simp [h]
  intro id id' h
  cases id with
  | none =>
      cases id' with
      | none => rfl
      | some n => exact absurd h.symm (hnone n)
  | some m =>
      cases id' with
      | none => exact absurd h (hnone m)
      | some n => rw [integerText_injective h]

/-- The slash ends the name, since neither the names nor the numbers hold one. -/
theorem bindingLabel_inj {x y : String} {id id' : Option Int} (hx : Rule.name.Allows x.toList)
    (h : Term.bindingLabel x id = Term.bindingLabel y id') : x = y ∧ id = id' := by
  have hlist : x.toList ++ '/' :: ((idText id).toList ++ [']']) =
      y.toList ++ '/' :: ((idText id').toList ++ [']']) := by
    simpa [bindingLabel_eq] using congrArg String.toList h
  have hname : '/' ∉ x.toList := hx.not_mem nofun rfl
  have hid : '/' ∉ (idText id).toList ++ [']'] := by
    rw [List.mem_append, not_or]
    exact ⟨not_mem_idText rfl (by decide) (by decide) id, by decide⟩
  obtain ⟨hnames, -, hids⟩ := (List.append_cons_inj_of_notMem hname hid).mp hlist
  exact ⟨String.toList_injective hnames,
    idText_injective (String.toList_injective (List.append_cancel_right hids))⟩

theorem Op.symbol_injective : Function.Injective Op.symbol := by
  intro op op' h
  cases op <;> cases op' <;> first | rfl | exact absurd h (by decide)

namespace Head

variable {g k : Head}

/-- A headline tells its form by its first two characters, and the rest by what follows them. -/
theorem line_inj (hg : g.IsWorded) (h : g.line = k.line) : g = k := by
  have hinitials : g.initials = k.initials := by
    rw [← take_two_line, h, take_two_line]
  cases g <;> cases k <;> simp [initials] at hinitials
  case var.var x id y id' =>
    obtain ⟨rfl, rfl⟩ := bindingLabel_inj hg (String.append_right_inj _ |>.mp h)
    rfl
  case lam.lam x id y id' =>
    obtain ⟨rfl, rfl⟩ := bindingLabel_inj hg (String.append_right_inj _ |>.mp h)
    rfl
  case letIn.letIn x id y id' =>
    obtain ⟨rfl, rfl⟩ := bindingLabel_inj hg (String.append_right_inj _ |>.mp h)
    rfl
  case constr.constr c d =>
    have hname : c = d :=
      String.append_right_inj _ |>.mp (String.append_left_inj _ |>.mp h)
    rw [hname]
  case lit.lit m n =>
    have htext : integerText m = integerText n :=
      String.append_right_inj _ |>.mp (String.append_left_inj _ |>.mp h)
    rw [integerText_injective htext]
  case arith.arith op op' => rw [Op.symbol_injective hinitials]
  case app.app => rfl
  case neg.neg => rfl

theorem newline_not_mem_line (hg : g.IsWorded) : '\n' ∉ g.line.toList := by
  have hbinding {x : String} (hx : Rule.name.Allows x.toList) (id : Option Int) :
      '\n' ∉ (Term.bindingLabel x id).toList := by
    have hname : '\n' ∉ x.toList := hx.not_mem nofun rfl
    have hid : '\n' ∉ (idText id).toList := not_mem_idText rfl (by decide) (by decide) id
    simp [bindingLabel_eq, hname, hid]
  cases g with
  | var x id | lam x id | letIn x id => simp [line, hbinding hg]
  | constr c =>
      have hname : '\n' ∉ c.toList := Rule.Allows.not_mem hg nofun rfl
      simp [line, hname]
  | lit n =>
      have hdigits : '\n' ∉ (integerText n).toList := not_mem_integerText rfl (by decide) n
      simp [line, hdigits]
  | arith op => cases op <;> decide
  | app | neg => decide

end Head

namespace Term

variable {t u c : Term} {depth : Nat} {rest rest' : List String}

/-- What a term holds besides its children. -/
def head : Term → Head
  | var name id => .var name id
  | constr name => .constr name
  | lit value => .lit value
  | lam param _ id => .lam param id
  | letIn name _ _ id => .letIn name id
  | app _ _ => .app
  | arith op _ _ => .arith op
  | neg _ => .neg

/-- Whether the names of variables and binders are words of the rule of names, keywords included,
and the names of constructors words of theirs. -/
def IsWorded : Term → Prop
  | var x _ => Rule.name.Allows x.toList
  | constr c => Rule.constr.Allows c.toList
  | lit _ => True
  | lam x body _ => Rule.name.Allows x.toList ∧ body.IsWorded
  | letIn x value body _ => Rule.name.Allows x.toList ∧ value.IsWorded ∧ body.IsWorded
  | app fn arg => fn.IsWorded ∧ arg.IsWorded
  | arith _ left right => left.IsWorded ∧ right.IsWorded
  | neg operand => operand.IsWorded

theorem headline_eq (t : Term) : t.headline = t.head.line := by
  cases t <;> rfl

theorem length_children (t : Term) : t.children.length = t.head.arity := by
  cases t <;> rfl

/-- A term is made of what it holds and its children. -/
theorem eq_of_head_of_children (hhead : t.head = u.head) (hchildren : t.children = u.children) :
    t = u := by
  cases t <;> cases u <;> simp_all [head]

theorem outlineLines_eq (depth : Nat) (t : Term) :
    t.outlineLines depth =
      (indentation depth ++ t.head.line) :: t.children.flatMap (outlineLines (depth + 1)) := by
  rw [← headline_eq]
  cases t <;> simp [outlineLines]

theorem isWorded_iff : t.IsWorded ↔ t.head.IsWorded ∧ ∀ c ∈ t.children, c.IsWorded := by
  cases t <;> simp [IsWorded, Head.IsWorded, head]

/-- The lines of a term show where they end and which term they are of. -/
def SelfDelimiting (t : Term) : Prop :=
  ∀ ⦃depth u rest rest'⦄, t.outlineLines depth ++ rest = u.outlineLines depth ++ rest' →
    t = u ∧ rest = rest'

/-- Lines of as many terms one behind the other are told apart from the first on. -/
theorem eq_of_flatMap_outlineLines {ts us : List Term} (hts : ∀ t ∈ ts, t.SelfDelimiting)
    (hlength : ts.length = us.length)
    (h : ts.flatMap (outlineLines depth) ++ rest = us.flatMap (outlineLines depth) ++ rest') :
    ts = us ∧ rest = rest' := by
  induction ts generalizing us with
  | nil =>
      obtain rfl : us = [] := List.length_eq_zero_iff.mp hlength.symm
      exact ⟨rfl, h⟩
  | cons t ts ih =>
      obtain ⟨ht, hts⟩ := List.forall_mem_cons.mp hts
      obtain ⟨u, us, rfl⟩ := List.exists_cons_of_length_eq_add_one hlength.symm
      rw [List.flatMap_cons, List.flatMap_cons, List.append_assoc, List.append_assoc] at h
      obtain ⟨rfl, hrest⟩ := ht h
      obtain ⟨rfl, rfl⟩ := ih hts (Nat.succ_inj.mp hlength) hrest
      exact ⟨rfl, rfl⟩

theorem IsWorded.selfDelimiting (h : t.IsWorded) : t.SelfDelimiting := by
  induction t using children_induction with
  | step t ih =>
      obtain ⟨hhead, hchildren⟩ := isWorded_iff.mp h
      intro depth u rest rest' hlines
      rw [outlineLines_eq, outlineLines_eq, List.cons_append, List.cons_append,
        List.cons.injEq] at hlines
      obtain ⟨hline, hbelow⟩ := hlines
      have hsame : t.head = u.head := Head.line_inj hhead (String.append_right_inj _ |>.mp hline)
      have hlength : t.children.length = u.children.length := by
        rw [length_children, length_children, hsame]
      obtain ⟨heq, rfl⟩ :=
        eq_of_flatMap_outlineLines (fun c hc => ih c hc (hchildren c hc)) hlength hbelow
      exact ⟨eq_of_head_of_children hsame heq, rfl⟩

theorem newline_not_mem_indentation (depth : Nat) : '\n' ∉ (indentation depth).toList := by
  rw [indentation, String.toList_ofList]
  intro hmem
  exact absurd (List.eq_of_mem_replicate hmem) (by decide)

theorem IsWorded.newline_not_mem_outlineLines (h : t.IsWorded) :
    ∀ line ∈ t.outlineLines depth, '\n' ∉ line.toList := by
  induction t using children_induction generalizing depth with
  | step t ih =>
      obtain ⟨hhead, hchildren⟩ := isWorded_iff.mp h
      rw [outlineLines_eq, List.forall_mem_cons]
      constructor
      · rw [String.toList_append, List.mem_append, not_or]
        exact ⟨newline_not_mem_indentation depth, Head.newline_not_mem_line hhead⟩
      · intro line hline
        obtain ⟨c, hc, hline⟩ := List.mem_flatMap.mp hline
        exact ih c hc (hchildren c hc) line hline

theorem outlineLines_ne_nil (depth : Nat) (t : Term) : t.outlineLines depth ≠ [] := by
  rw [outlineLines_eq]
  exact List.cons_ne_nil _ _

/-- The line feeds of an outline stand between its lines, so the lines can be read off it. -/
theorem IsWorded.splitOn_outline (h : t.IsWorded) :
    t.outline.toList.splitOn '\n' = (t.outlineLines 0).map String.toList := by
  have hfeed : "\n".toList = ['\n'] := rfl
  rw [outline, String.toList_intercalate, hfeed]
  apply List.splitOn_intercalate
  · exact List.forall_mem_map.mpr h.newline_not_mem_outlineLines
  · exact mt List.map_eq_nil_iff.mp (outlineLines_ne_nil 0 t)

theorem outline_inj (ht : t.IsWorded) (hu : u.IsWorded) (h : t.outline = u.outline) : t = u := by
  have hlines : (t.outlineLines 0).map String.toList = (u.outlineLines 0).map String.toList := by
    rw [← ht.splitOn_outline, h, hu.splitOn_outline]
  have hsame : t.outlineLines 0 ++ [] = u.outlineLines 0 ++ [] := by
    rw [(List.map_inj_right fun _ _ => String.toList_inj.mp).mp hlines]
  exact (ht.selfDelimiting hsame).1

/-- The tree of a term loses nothing: of two terms that can be written, with complete names, the
trees are the same text exactly when the terms are the same, their binding numbers included. -/
theorem written_outline_inj (t u : Term) (ht : t.IsWorded) (hu : u.IsWorded)
    (hwt : t.isWritable = true) (hwu : u.isWritable = true) :
    t.written? outline = u.written? outline ↔ t = u := by
  rw [written?, written?, if_pos hwt, if_pos hwu, Option.some_inj]
  exact ⟨outline_inj ht hu, congrArg outline⟩

/-- The term `\let -> Let let`, whose variable has the number of its binder or none. -/
def lettered (id : Option Int) : Term :=
  lam "let" (app (constr "Let") (var "let" id)) (some 0)

theorem written_outline_inj_lettered :
    (lettered (some 0)).IsWorded ∧ (lettered none).IsWorded ∧
      (lettered (some 0)).isWritable = true ∧ (lettered none).isWritable = true ∧
      (lettered (some 0)).written? outline ≠ (lettered none).written? outline := by
  have hword : ∀ c ∈ ['e', 't'], isWord c = true :=
    List.forall_mem_cons.mpr ⟨by decide, List.forall_mem_singleton.mpr (by decide)⟩
  have hname : Rule.name.Allows "let".toList :=
    @Rule.Allows.name 'l' ['e', 't'] [] (by decide) hword (List.forall_mem_nil _)
  have hconstr : Rule.constr.Allows "Let".toList := .constr (by decide) hword
  have hsome : (lettered (some 0)).IsWorded := ⟨hname, hconstr, hname⟩
  have hnone : (lettered none).IsWorded := ⟨hname, hconstr, hname⟩
  refine ⟨hsome, hnone, rfl, rfl, ?_⟩
  exact mt (written_outline_inj _ _ hsome hnone rfl rfl).mp (by decide)

end Term

end Contractum
