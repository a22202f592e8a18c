import Contractum.Proofs.Shell.Lines
import Contractum.Proofs.Spelling.Margins

/-!
# Lines that are terms

A line that is a term is understood as a term, unless the name at its front is the one for the end
of the input. The other commands have names like those of variables. Where such a name stands at
the front of a term, the term begins with a variable, which nothing binds, or with a keyword, and
no keyword begins with the name of a command.
-/

namespace Contractum

open Text

variable {tier : Tier} {ts : List Token} {t u : Term} {cs : List Char} {c : Char} {k : Command}
variable {line text : String}

/-- A variable at the front of a tree is bound by nothing in it. -/
theorem Derives.isFree_of_head {x : String} (h : Derives tier ts t)
    (hhead : ts.head? = some (.var x)) : t.isFree x = true := by
  induction h with
  | letIn | lam | neg | constr | literal | parens => cases hhead
  | var y =>
      cases hhead
      exact beq_self_eq_true x
  | sum _ left _ ih | prod _ left _ ih =>
      obtain ⟨token, rest, rfl, -⟩ := left.starts
      exact Term.isFree_arith_iff.mpr (.inl (ih hhead))
  | app fn _ ih =>
      obtain ⟨token, rest, rfl, -⟩ := fn.starts
      exact Term.isFree_app_iff.mpr (.inl (ih hhead))
  | ofSum _ ih | ofProd _ ih | ofUnary _ ih | ofApp _ ih | ofAtom _ ih => exact ih hhead

namespace Command

theorem name_of_ofName? {name : String} (h : ofName? name = some k) : k.name = name := by
  have hfound := List.find?_some h
  exact beq_iff_eq.mp hfound

/-- The name of a command is a word like the name of a variable, but for the end of the input. -/
theorem allows_name (h : k ≠ endOfInput) : Rule.name.Allows k.name.toList := by
  have hname : ∃ c cs, k.name.toList = c :: cs ∧ isLower c = true ∧ ∀ d ∈ cs, isWord d = true := by
    cases k with
    | endOfInput => exact absurd rfl h
    | redexes | step | tree | history | undo | help | exit =>
        exact ⟨_, _, rfl, by decide, List.all_eq_true.mp (by decide)⟩
  obtain ⟨c, cs, hcs, hlower, hword⟩ := hname
  rw [hcs, ← List.append_nil cs]
  exact .name hlower hword (List.forall_mem_nil _)

/-- No keyword begins with the name of a command. -/
theorem not_name_prefix_keyword (k : Command) {m : Mark} (hm : m.isKeyword = true) :
    ¬ k.name.toList <+: m.spelling.toList := by
  cases m with
  | letWord | inWord => cases k <;> decide
  | lambda | opening | closing | plus | minus | star | slash | equals | arrow => cases hm

end Command

namespace Request

/-- The name that a line begins with, behind the blanks at its front. -/
def leadingName (line : String) : String :=
  String.ofList ((trimWhile isBlank line.toList).takeWhile isNameChar)

/-- A closed term begins with the name of no command but the end of the input. -/
theorem eq_endOfInput_of_closed (hderives : Derives .term ts u) (hclosed : u.ScopedIn [])
    (hlexemes : lexemes (c :: cs) = (ts ++ [Token.finish]).map .token) (hgap : isGap c = false)
    (hname : k.name.toList <+: c :: cs) : k = .endOfInput := by
  by_contra hk
  obtain ⟨rule, word, token, hlongest, hsaid, lexeme, tail, hfirst, htells⟩ :=
    (Readable.of_derives hderives hlexemes).exists_longest hgap
  have hallows := Command.allows_name hk
  obtain ⟨a, as, hcons, hopens⟩ := hallows.exists_cons
  obtain rfl : a = c := (List.cons_prefix_cons.mp (hcons ▸ hname)).1
  obtain ⟨b, bs, rfl, hword⟩ := hlongest.allowed.exists_cons
  obtain rfl : b = a := (List.cons_prefix_cons.mp hlongest.front).1
  obtain rfl : rule = .name := Rule.eq_of_opens hword hopens
  have hfront : k.name.toList <+: b :: bs :=
    List.prefix_of_prefix_length_le hname hlongest.front (hlongest.longest _ hallows hname)
  generalize hspelled : b :: bs = word at hsaid hfront
  cases hsaid with
  | keyword keyword => exact Command.not_name_prefix_keyword k keyword hfront
  | var =>
      cases htells with
      | token =>
          obtain ⟨first, rest, rfl, -⟩ := hderives.starts
          rw [hfirst, List.cons_append, List.map_cons] at hlexemes
          obtain ⟨⟨⟩, -⟩ := List.cons_eq_cons.mp hlexemes
          exact Term.scopedIn_nil_iff.mp hclosed _ (hderives.isFree_of_head rfl)

/-- A term is no request for help and none to take the line as a term. -/
theorem ofLine_of_parse (h : Term.parse line = .ok t) :
    ofLine line = ofNamed (trimWhile isBlank line.toList) ∧
      ∀ k : Command, k.name = leadingName line → k = .endOfInput := by
  obtain ⟨ts, u, hlexemes, hderives, hclosed, -⟩ := Term.parse_eq_ok_iff_lexemes.mp h
  have hreadable := Readable.of_derives hderives hlexemes
  rw [ofLine, leadingName]
  have hstopped := stopped_trimWhile isBlank line.toList
  have htrim := lexemes_trimWhile hreadable
  rw [hlexemes] at htrim
  generalize trimWhile isBlank line.toList = cs at hstopped htrim
  cases cs with
  | nil =>
      rw [lexemes_nil] at htrim
      obtain ⟨first, rest, rfl, -⟩ := hderives.starts
      simp at htrim
  | cons c cs =>
      have hblank : isBlank c = false := hstopped c rfl
      have hgap : isGap c = false := by
        rw [Bool.eq_false_iff]
        intro hgap
        rw [isBlank_of_isGap hgap] at hblank
        contradiction
      obtain ⟨rule, word, token, hlongest, -⟩ :=
        (Readable.of_derives hderives htrim).exists_longest hgap
      have hopens : rule.opens c = true := by
        obtain ⟨d, ds, rfl, hopens⟩ := hlongest.allowed.exists_cons
        rwa [(List.cons_prefix_cons.mp hlongest.front).1] at hopens
      have hhelp : c ≠ '?' := by
        rintro rfl
        cases rule <;> revert hopens <;> decide
      have hshout : c ≠ '!' := by
        rintro rfl
        cases rule <;> revert hopens <;> decide
      refine ⟨?_, fun k hk => ?_⟩
      · split
        · next hnil => cases hnil
        · next hcons =>
            cases hcons
            exact absurd rfl hhelp
        · next hcons =>
            cases hcons
            exact absurd rfl hshout
        · rfl
      · have hname : k.name.toList <+: c :: cs := by
          rw [hk, String.toList_ofList]
          exact List.takeWhile_prefix isNameChar
        exact eq_endOfInput_of_closed hderives hclosed htrim hgap hname

/-- A term is understood as a term if the name at its front is not that of the end of the input. -/
theorem ofLine_eq_term (h : Term.parse line = .ok t)
    (hname : leadingName line ≠ Command.endOfInput.name) : ofLine line = .term (strip line) := by
  obtain ⟨hline, hcommand⟩ := ofLine_of_parse h
  rw [hline, ofNamed]
  split
  · next k hk =>
      have hkname : k.name = leadingName line := Command.name_of_ofName? hk
      rw [hcommand k hkname] at hkname
      exact absurd hkname.symm hname
  · rfl

theorem ofLine_eq_endOfInput (h : Term.parse line = .ok t)
    (hname : leadingName line = Command.endOfInput.name) :
    ∃ argument, ofLine line = .command .endOfInput argument := by
  have hfound : Command.ofName? (leadingName line) = some .endOfInput :=
    hname ▸ Command.ofName?_name .endOfInput
  rw [leadingName] at hfound
  rw [(ofLine_of_parse h).1, ofNamed, hfound]
  exact ⟨_, rfl⟩

end Request

namespace Shell

variable {s : Session}

/-- A line that is understood as a term is submitted and shown. -/
theorem onLine_of_term (hrequest : Request.ofLine line = .term text)
    (hparse : Term.parse text = .ok t) (s : Session) :
    onLine line s = .ok .done ((s.entered text t).printing
      (Session.shownText (Session.columnText s.reporter.host.painting .bold) false t)) := by
  have hshow := Session.prints_showTerm (s := s.entered text t) rfl
    (Term.isWritable_of_parse hparse) .bold false
  have hact := bind_of_ok (f := fun _ => showTerm)
    (discard_of_ok (Session.submit_run hparse s))
  rw [onLine, hrequest]
  exact reporting_of_ok (hact.trans hshow)

/-- A line that is a term is submitted, in whatever session, unless the name at its front is that
of the end of the input. Then it asks the shell to stop and leaves the work as it is. -/
theorem onLine_of_parse (s : Session) (hparse : Term.parse line = .ok t) :
    (Request.leadingName line ≠ Command.endOfInput.name →
      Request.ofLine line = .term (strip line) ∧ ∃ s', onLine line s = .ok .done s' ∧
        s'.work = some ⟨strip line, t, []⟩ ∧ s'.history = []) ∧
      (Request.leadingName line = Command.endOfInput.name →
        ∃ s', onLine line s = .ok .stop s' ∧ s'.work = s.work) := by
  constructor
  · intro hname
    have hrequest := Request.ofLine_eq_term hparse hname
    exact ⟨hrequest, _, onLine_of_term hrequest (Term.parse_strip hparse) s, rfl, rfl⟩
  · intro hname
    obtain ⟨argument, hrequest⟩ := Request.ofLine_eq_endOfInput hparse hname
    rw [onLine, hrequest]
    exact ⟨_, bind_of_ok (Session.prints_plainLine "" s), rfl⟩

/-- A constructor whose name goes on behind that of the end of the input is taken as a term, with
blanks around it. The name by itself is not, also in front of an argument. -/
theorem onLine_of_parse_capital :
    Term.parse " EOFx (1 + 2)\n" =
        .ok (.app (.constr "EOFx") (.arith .add (.lit 1) (.lit 2))) ∧
      Request.leadingName " EOFx (1 + 2)\n" = "EOFx" ∧
      (∃ s', onLine " EOFx (1 + 2)\n" Session.dividing = .ok .done s' ∧
        s'.work = some ⟨"EOFx (1 + 2)",
          .app (.constr "EOFx") (.arith .add (.lit 1) (.lit 2)), []⟩) ∧
      Term.parse "EOF 1" = .ok (.app (.constr "EOF") (.lit 1)) ∧
      ∃ s', onLine "EOF 1" Session.dividing = .ok .stop s' ∧ s'.work = Session.dividing.work := by
  have hparse : Term.parse " EOFx (1 + 2)\n" =
      .ok (.app (.constr "EOFx") (.arith .add (.lit 1) (.lit 2))) := by
    decide +kernel
  have hname : Request.leadingName " EOFx (1 + 2)\n" = "EOFx" := by decide +kernel
  have hother : Term.parse "EOF 1" = .ok (.app (.constr "EOF") (.lit 1)) := by decide +kernel
  obtain ⟨-, s', hline, hwork, -⟩ := (onLine_of_parse Session.dividing hparse).1
    (by rw [hname]; decide)
  have hstrip : strip " EOFx (1 + 2)\n" = "EOFx (1 + 2)" := by decide +kernel
  exact ⟨hparse, hname, ⟨s', hline, hstrip ▸ hwork⟩, hother,
    (onLine_of_parse Session.dividing hother).2 (by decide +kernel)⟩

/-- The name for the end of the input is a term, and as a line it asks the shell to stop. -/
theorem onLine_endOfInput :
    Term.parse "EOF" = .ok (.constr "EOF") ∧
      ∃ s', onLine "EOF" (Session.start fresh) = .ok .stop s' ∧ s'.work = none := by
  have hrequest : Request.ofLine "EOF" = .command .endOfInput "" := by decide +kernel
  have hline : onLine "EOF" (Session.start fresh) =
      .ok .stop ((Session.start fresh).printing ("" ++ "\n")) := by
    rw [onLine, hrequest]
    exact bind_of_ok (Session.prints_plainLine "" (Session.start fresh))
  exact ⟨by decide +kernel, _, hline, rfl⟩

end Shell

end Contractum
