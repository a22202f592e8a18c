import Contractum.Proofs.Session.Outcomes
import Contractum.Proofs.Spelling.Limits

/-!
# Showing a session

What is shown of a session are its terms, in forms that exist when the terms can be written. Then
showing succeeds and only prints, whatever else the session holds, and what it prints is a text
of the current term.
-/

namespace Contractum

open Text

namespace Session

variable {s : Session} {work : Work} {act : Action Unit} {more : String}

theorem printing_printing (more further : String) :
    (s.printing more).printing further = s.printing (more ++ further) := by
  simp only [printing, Reporter.printing_printing]

theorem printing_empty : s.printing "" = s := by
  rw [printing, Reporter.printing_empty]

/-- From this session on, an operation succeeds and prints this text, and nothing else is
changed. -/
def Prints (s : Session) (act : Action Unit) (more : String) : Prop :=
  act s = .ok () (s.printing more)

/-- From this session on, an operation succeeds and changes nothing but what was printed. -/
def PrintsFrom (s : Session) (act : Action Unit) : Prop :=
  ∃ more, act s = .ok () (s.printing more)

theorem prints_pure (s : Session) : Prints s (pure ()) "" := by
  rw [Prints, printing_empty]
  rfl

theorem Prints.bind {next : Unit → Action Unit} {further : String} (hact : Prints s act more)
    (hnext : Prints (s.printing more) (next ()) further) :
    Prints s (act >>= next) (more ++ further) := by
  rw [Prints, bind_of_ok hact, hnext, printing_printing]

theorem prints_forM {α : Type} {f : α → Action Unit} {text : α → String} {xs : List α}
    (h : ∀ x ∈ xs, ∀ more, Prints (s.printing more) (f x) (text x)) (more : String) :
    Prints (s.printing more) (xs.forM f) (String.join (xs.map text)) := by
  induction xs generalizing more with
  | nil => exact prints_pure _
  | cons x xs ih =>
      obtain ⟨hx, hxs⟩ := List.forall_mem_cons.mp h
      rw [List.map_cons, String.join_cons]
      apply (hx more).bind
      rw [printing_printing]
      exact ih hxs _

theorem prints_writeLine (line : Styled) (s : Session) :
    Prints s (tell (Reporter.writeLine line)) (lineText s.reporter.host.painting line) :=
  tell_run (Reporter.prints_writeLine line s.reporter)

theorem prints_plainLine (text : String) (s : Session) :
    Prints s (tell (Reporter.writeLine (Styled.plain text))) (text ++ "\n") := by
  have hline := prints_writeLine (Styled.plain text) s
  rwa [lineText, Styled.render_plain] at hline

theorem prints_written {form : Term → String} {t : Term} {next : String → Action Unit}
    (h : t.isWritable = true) (hnext : Prints s (next (form t)) more) :
    Prints s (written form t >>= next) more := by
  rw [Prints, bind_of_ok (written_run form h s), hnext]

/-- How a kind of redex appears in the column of the kinds. -/
def columnText (painting : Painting) (column : Style) (kind : RedexKind) : String :=
  Styled.render painting [⟨column, kindColumn kind⟩]

theorem columnText_plain (painting : Painting) : columnText painting .plain = kindColumn := by
  funext kind
  exact Styled.render_plain painting (kindColumn kind)

theorem columnText_unpainted (column : Style) : columnText .unpainted column = kindColumn := by
  funext kind
  rw [columnText, Styled.render, Styled.render, String.append_empty]
  cases column <;> rfl

/-- The line of a numbered redex of a term, by what the column of the kinds holds. -/
def redexText (column : RedexKind → String) (t : Term) (entry : (Path × RedexKind) × Nat) :
    String :=
  "  [" ++ naturalText entry.2 ++ "] " ++ column entry.1.2 ++ " " ++
    ((t.get? entry.1.1).getD t).render ++ "\n"

/-- The lines that show a term: its source form, its tree if asked, and one line for each of its
redexes. -/
def shownText (column : RedexKind → String) (tree : Bool) (t : Term) : String :=
  t.render ++ "\n" ++ ((if tree then t.outline ++ "\n" else "") ++
    String.join (t.redexes.zipIdx.map (redexText column t)))

theorem prints_showRedex {t : Term} (h : t.isWritable = true) (column : Style)
    (entry : (Path × RedexKind) × Nat) (s : Session) :
    Prints s (showRedex column t entry.2 entry.1.1 entry.1.2)
      (redexText (columnText s.reporter.host.painting column) t entry) := by
  have hnode : ((t.get? entry.1.1).getD t).isWritable = true := by
    cases hget : t.get? entry.1.1 with
    | none => exact h
    | some u => exact Term.isWritable_get? h hget
  have hline : redexText (columnText s.reporter.host.painting column) t entry =
      lineText s.reporter.host.painting (Styled.plain ("  [" ++ naturalText entry.2 ++ "] ") ++
        [⟨column, kindColumn entry.1.2⟩] ++
        Styled.plain (" " ++ ((t.get? entry.1.1).getD t).render)) := by
    simp only [redexText, columnText, lineText, Styled.render_append, Styled.render_plain,
      String.append_assoc]
  rw [hline]
  exact prints_written hnode (prints_writeLine _ s)

theorem prints_redexes {t : Term} (h : t.isWritable = true) (column : Style) (more : String) :
    Prints (s.printing more)
      (t.redexes.zipIdx.forM fun ((path, kind), index) => showRedex column t index path kind)
      (String.join (t.redexes.zipIdx.map
        (redexText (columnText s.reporter.host.painting column) t))) :=
  prints_forM (fun entry _ _ => prints_showRedex h column entry _) more

/-- The current term is shown when it can be written. -/
theorem prints_showTerm (hwork : s.work = some work) (h : work.term.isWritable = true)
    (column : Style) (tree : Bool) :
    Prints s (showTerm column tree)
      (shownText (columnText s.reporter.host.painting column) tree work.term) := by
  rw [Prints, showTerm, get_bind, hwork]
  apply prints_written h
  apply (prints_plainLine _ s).bind
  split
  · apply prints_written h
    apply (prints_plainLine _ _).bind
    rw [printing_printing]
    exact prints_redexes h column _
  · rw [String.empty_append]
    exact prints_redexes h column _

theorem showTerm_of_none (hwork : s.work = none) (column : Style) (tree : Bool) :
    showTerm column tree s = .error (.defect .noTerm) s := by
  rw [showTerm, get_bind, hwork]
  rfl

end Session

end Contractum
