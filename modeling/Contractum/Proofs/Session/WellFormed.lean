import Contractum.Proofs.Scoping.Steps
import Contractum.Proofs.Session.Run
import Contractum.Proofs.Spelling.LexicalSteps

/-!
# Well-formed sessions

Whatever is submitted, reduced and undone, in any order and with any failures, the terms of
a session are closed, their variables carry the numbers of their binders, and their names
can be read back. The numbers are given once by the parser and only copied afterwards.
-/

namespace Contractum

namespace Term

/-- A term without free variables whose variables carry the numbers of their binders, and
whose names are complete tokens of their classes. -/
structure WellFormed (t : Term) : Prop where
  closed : ∀ x, ¬ t.isFree x = true
  numbered : ∀ path x id, t.get? path = some (var x id) →
    ∃ (k : Int) (above : Path) (node : Term), id = some k ∧ t.binderOf? path = some above ∧
      t.get? above = some node ∧ node.binding? = some (x, some k)
  lexical : t.isLexical = true

/-- Resolved terms with lexical names are well-formed. -/
theorem Resolved.wellFormed {t : Term} (h : Resolved [] t) (hlexical : t.isLexical = true) :
    t.WellFormed where
  closed := scopedIn_nil_iff.mp h.scopedIn
  numbered := fun _ _ _ hget => h.binderOf? hget
  lexical := hlexical

theorem resolved_of_parse {text : String} {t : Term} (h : Term.parse text = .ok t) :
    Resolved [] t := by
  obtain ⟨items, ts, t, -, -, -, hclosed, rfl⟩ := Term.parse_eq_ok_iff.mp h
  exact resolved_numbered hclosed

end Term

namespace Session

/-- The history of a session, and its current term behind it. -/
def terms (s : Session) : List Term :=
  s.history ++ (s.work.map (·.term)).toList

theorem mem_terms_iff {s : Session} {t : Term} :
    t ∈ s.terms ↔ ∃ work, s.work = some work ∧ t ∈ work.term :: work.past := by
  unfold terms history
  cases s.work with
  | none => simp
  | some work => simp [or_comm]

/-- The invariant of works: all terms are resolved and have lexical names. -/
def Invariant (work : Option Work) : Prop :=
  ∀ w, work = some w → ∀ t ∈ w.term :: w.past, t.Resolved [] ∧ t.isLexical = true

theorem Change.invariant {work work' : Option Work} (h : Change work work')
    (hinv : Invariant work) : Invariant work' := by
  cases h with
  | refused => exact hinv
  | submitted parsed =>
      rintro w ⟨rfl⟩ t ht
      rw [List.mem_singleton.mp ht]
      exact ⟨Term.resolved_of_parse parsed, Term.isLexical_of_parse parsed⟩
  | reduced picked contracted =>
      rintro w ⟨rfl⟩ t ht
      rcases List.mem_cons.mp ht with rfl | hpast
      · obtain ⟨hresolved, hlexical⟩ := hinv _ rfl _ List.mem_cons_self
        exact ⟨hresolved.contractAt contracted, Term.isLexical_contractAt hlexical contracted⟩
      · exact hinv _ rfl t hpast
  | undone =>
      rintro w ⟨rfl⟩ t ht
      exact hinv _ rfl t (List.mem_cons_of_mem _ ht)

/-- After every run of calls on a new session, its terms are well-formed. -/
theorem wellFormed_run (reporter : Reporter) (calls : List Call) (t : Term)
    (h : t ∈ (run (start reporter) calls).terms) : t.WellFormed := by
  obtain ⟨work, hwork, ht⟩ := mem_terms_iff.mp h
  have hinv : Invariant (run (start reporter) calls).work :=
    run_induction (fun _ hnone => nomatch hnone) Change.invariant reporter calls
  obtain ⟨hresolved, hlexical⟩ := hinv work hwork t ht
  exact hresolved.wellFormed hlexical

/-- A run with a step that renames a binder, taken again after it was undone, and a call that
is refused. -/
def renamingCalls : List Call :=
  [.submit "\\y -> (\\x -> \\y -> x) y", .reduce 0, .undo, .reduce 1, .reduce 0]

theorem wellFormed_renamed :
    (Term.lam "y" (.lam "y'" (.var "y" (some 0)) (some 2)) (some 0)).WellFormed := by
  apply wellFormed_run ⟨false, false, false, [], ""⟩ renamingCalls
  have hterms : (run (start ⟨false, false, false, [], ""⟩) renamingCalls).terms =
      [.lam "y" (.app (.lam "x" (.lam "y" (.var "x" (some 1)) (some 2)) (some 1))
          (.var "y" (some 0))) (some 0),
        .lam "y" (.lam "y'" (.var "y" (some 0)) (some 2)) (some 0)] := by
    decide +kernel
  rw [hterms]
  exact List.mem_cons_of_mem _ (List.mem_singleton_self _)

end Session

end Contractum
