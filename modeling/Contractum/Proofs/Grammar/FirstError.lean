import Contractum.Proofs.Report.Readings

/-!
# The first token that cannot be right

A text that is no term is reported at one of its tokens. The tokens in front of it begin an
accepted list, and with it they begin none, so it is the first token at which the text must be
wrong. The report names that token, and expects what the grammar allows in its place.
-/

namespace Contractum

open Parse

/-- Tokens start at a place or behind it, each behind the one before it. -/
def StartFrom (pos : Nat) (ls : List Located) : Prop :=
  (∀ l ∈ ls, pos ≤ l.start) ∧ ls.Pairwise fun l m => l.start < m.start

theorem startFrom_singleton {pos : Nat} {l : Located} (h : pos ≤ l.start) : StartFrom pos [l] :=
  ⟨List.forall_mem_singleton.mpr h, List.pairwise_singleton _ _⟩

theorem StartFrom.cons {pos stop : Nat} {l : Located} {ls : List Located} (h : StartFrom stop ls)
    (hpos : pos ≤ l.start) (hstop : l.start < stop) : StartFrom pos (l :: ls) := by
  obtain ⟨hfrom, hpairwise⟩ := h
  refine ⟨List.forall_mem_cons.mpr ⟨hpos, fun m hm => ?_⟩,
    List.pairwise_cons.mpr ⟨fun m hm => ?_, hpairwise⟩⟩
  · have hm := hfrom m hm
    omega
  · have hm := hfrom m hm
    omega

/-- The tokens among items, up to the first literal of too many digits. -/
def located : List Item → List Located
  | .token l :: items => l :: located items
  | .tooLong _ _ :: _ | [] => []

theorem located_append (ls : List Located) (items : List Item) :
    located (ls.map .token ++ items) = ls ++ located items := by
  induction ls with
  | nil => rfl
  | cons l ls ih => rw [List.map_cons, List.cons_append, located, ih, List.cons_append]

theorem located_map (ls : List Located) : located (ls.map .token) = ls := by
  have h := located_append ls []
  rwa [List.append_nil, located, List.append_nil] at h

theorem startFrom_located_scan (pos : Nat) (cs : List Char) :
    StartFrom pos (located (scan pos cs)) := by
  induction pos, cs using scan.induct with
  | case1 pos cs hblank =>
      rw [scan_of_blank hblank]
      exact startFrom_singleton (Nat.le_add_right _ _)
  | case2 pos cs c rest hcs hread =>
      rw [scan_of_unknown hcs hread]
      exact startFrom_singleton (Nat.le_add_right _ _)
  | case3 pos cs start c rest hcs lexeme width hread stop ih =>
      rw [scan_of_read hcs hread]
      cases lexeme with
      | tooLong digits => exact ⟨List.forall_mem_nil _, List.Pairwise.nil⟩
      | token t =>
          refine ih.cons (Nat.le_add_right _ _) ?_
          dsimp only
          omega

theorem startFrom_of_scan (pos : Nat) (cs : List Char) (ls : List Located)
    (h : scan pos cs = ls.map .token) : StartFrom pos ls := by
  have hlocated := startFrom_located_scan pos cs
  rwa [h, located_map] at hlocated

theorem StartFrom.start_ne {pos : Nat} {before after : List Located} {l : Located}
    (h : StartFrom pos (before ++ l :: after)) : ∀ m ∈ before ++ after, m.start ≠ l.start := by
  obtain ⟨-, htail, hbefore⟩ := List.pairwise_append.mp h.2
  intro m hm
  obtain hm | hm := List.mem_append.mp hm
  · exact Nat.ne_of_lt (hbefore m hm l List.mem_cons_self)
  · exact Nat.ne_of_gt ((List.pairwise_cons.mp htail).1 m hm)

/-- Where starts increase, a token is determined by its start, and so are those in front of it. -/
theorem StartFrom.unique {pos : Nat} {before before' after after' : List Located} {l l' : Located}
    (h : StartFrom pos (before ++ l :: after))
    (heq : before ++ l :: after = before' ++ l' :: after') (hstart : l.start = l'.start) :
    before = before' ∧ l = l' := by
  induction before generalizing pos before' with
  | nil =>
      cases before' with
      | nil =>
          cases heq
          exact ⟨rfl, rfl⟩
      | cons m ms =>
          cases heq
          obtain ⟨hbehind, -⟩ := List.pairwise_cons.mp h.2
          have hlt := hbehind l' (List.mem_append_right _ List.mem_cons_self)
          omega
  | cons m ms ih =>
      cases before' with
      | nil =>
          cases heq
          obtain ⟨hbehind, -⟩ := List.pairwise_cons.mp h.2
          have hlt := hbehind l (List.mem_append_right _ List.mem_cons_self)
          omega
      | cons m' ms' =>
          injection heq with hm hrest
          have htail : StartFrom pos (ms ++ l :: after) :=
            ⟨fun l hl => h.1 l (List.mem_cons_of_mem _ hl), (List.pairwise_cons.mp h.2).2⟩
          obtain ⟨rfl, hl⟩ := ih htail hrest
          exact ⟨by rw [hm], hl⟩

/-- Tokens in front of the end of a stream, and one behind them, can be passed up to that one. -/
theorem Stream.exists_passes_of_append {s s' : Stream} {ts body rest : List Token} {token : Token}
    (hpass : s.Passes body s') (hfinish : s'.current.token = .finish)
    (h : ts ++ token :: rest = body ++ [Token.finish]) :
    ∃ s₁, s.Passes ts s₁ ∧ s₁.current.token = token := by
  obtain rfl | ⟨rest', last, rfl⟩ := List.eq_nil_or_concat rest
  · obtain ⟨rfl, hlast⟩ := List.append_inj' h rfl
    cases hlast
    exact ⟨s', hpass, hfinish⟩
  · rw [List.concat_eq_append, ← List.cons_append, ← List.append_assoc] at h
    obtain ⟨rfl, -⟩ := List.append_inj' h rfl
    obtain ⟨s₁, hts, hrest⟩ := Stream.passes_append_iff.mp hpass
    obtain ⟨s₂, htake, -⟩ := Stream.passes_cons_iff.mp hrest
    exact ⟨s₁, hts, htake.1⟩

/-- Where the text is wrong. -/
def ParseFault.start? : ParseFault → Option Nat
  | .unknownChar _ _ start | .unexpected _ _ start _ | .freeVariable _ start _
  | .stream (.wrongKind _ _ start _) => some start
  | .stream (.tooLong _) | .tooDeep => none

theorem Halts.start?_eq {ts : List Token} {l : Located} {e : ParseFault} (h : Halts ts l e) :
    e.start? = some l.start := by
  cases h <;> rfl

namespace Parse

variable {s : Stream} {q : ParseState} {e : ParseFault} {before after ls : List Located}
variable {l : Located}

/-- A whole reading that fails does so at one of the tokens in front of the stream, unless it meets
a literal of too many digits. -/
theorem halts_or_tooLong {depth : Nat} (hended : Ended s.items) (hdepth : depthBound s ≤ depth)
    (extra : Scope) (h : whole ⟨s, 0⟩ = .error e q) :
    (∃ before l after, located s.items = before ++ l :: after ∧ Halts (before.map (·.token)) l e ∧
      ((e.IsFree → extra = []) → ∀ p s', p.stream.Passes (before.map (·.token)) s' →
        s'.current.token = l.token → p.count = 0 →
          ∃ e' q', (term depth extra >>= finished) p = .error e' q')) ∨
      ∃ digits stop, .tooLong digits stop ∈ s.items ∧ e = .stream (.tooLong digits) := by
  have hmirrors := mirrors_whole hended hdepth extra
  rw [h] at hmirrors
  cases hmirrors with
  | @error _ _ s' us hpass hgoes halts again =>
      obtain ⟨before, rfl, hsplit, -⟩ := Stream.items_of_passes hended hgoes hpass
      have hlocated : located s.items = before ++ s'.current :: located s'.ahead := by
        rw [hsplit, located_append]
        rfl
      exact .inl ⟨before, _, _, hlocated, halts, again⟩
  | tooLong met => exact .inr ⟨_, _, met, rfl⟩

theorem exists_halts {depth : Nat} (hended : Ended s.items) (hitems : s.items = ls.map .token)
    (hdepth : depthBound s ≤ depth) (extra : Scope) (h : whole ⟨s, 0⟩ = .error e q) :
    ∃ before l after, ls = before ++ l :: after ∧ Halts (before.map (·.token)) l e ∧
      ((e.IsFree → extra = []) → ∀ p s', p.stream.Passes (before.map (·.token)) s' →
        s'.current.token = l.token → p.count = 0 →
          ∃ e' q', (term depth extra >>= finished) p = .error e' q') := by
  obtain ⟨before, l, after, hlocated, hrest⟩ | ⟨digits, stop, hmet, -⟩ :=
    halts_or_tooLong hended hdepth extra h
  · rw [hitems, located_map] at hlocated
    exact ⟨before, l, after, hlocated, hrest⟩
  · rw [hitems] at hmet
    obtain ⟨l, -, hl⟩ := List.mem_map.mp hmet
    cases hl

/-- Behind the tokens in front of a failure, no accepted list goes on with the token at which it
happened. At a token that is not a free variable, not even a list whose tree has free variables
goes on so. -/
theorem not_derives_of_located (hended : Ended s.items)
    (hstarts : StartFrom 0 (before ++ l :: after))
    (hlocated : located s.items = before ++ l :: after) (h : whole ⟨s, 0⟩ = .error e q)
    (hhalts : Halts (before.map (·.token)) l e) {body rest : List Token} {t : Term} {extra : Scope}
    (hfree : e.IsFree → extra = []) (hderives : Derives .term body t) (hscope : t.ScopedIn extra) :
    before.map (·.token) ++ l.token :: rest ≠ body ++ [.finish] := by
  intro hbody
  let depth := max (depthBound s) (8 * body.length + 6)
  obtain ⟨before', l', after', hlists, hhalts', again⟩ | ⟨digits, stop, -, rfl⟩ :=
    halts_or_tooLong hended (Nat.le_max_left _ _ : depthBound s ≤ depth) extra h
  · have hstart : l.start = l'.start :=
      Option.some.inj (hhalts.start?_eq.symm.trans hhalts'.start?_eq)
    obtain ⟨rfl, rfl⟩ := hstarts.unique (hlocated.symm.trans hlists) hstart
    obtain ⟨s', s'', hpass, hfinish⟩ := Stream.exists_of_tokens body
    obtain ⟨s₁, hbefore, htoken⟩ := Stream.exists_passes_of_append hpass hfinish hbody
    obtain ⟨e', q', hfail⟩ := again hfree ⟨s', 0⟩ s₁ hbefore htoken rfl
    have hstop : Tier.term.StopsAt s''.current.token := by
      rw [hfinish]
      exact stopsAt_finish
    have hrun : term depth extra ⟨s', 0⟩ = _ :=
      (readsAll hderives).term_run hpass hscope hstop (Nat.le_max_right _ _)
    rw [bind_of_ok hrun, finished_of_finish hfinish] at hfail
    contradiction
  · cases hhalts

theorem not_derives_of_halts (hended : Ended s.items) (hstarts : StartFrom 0 (before ++ l :: after))
    (hitems : s.items = (before ++ l :: after).map .token) (h : whole ⟨s, 0⟩ = .error e q)
    (hhalts : Halts (before.map (·.token)) l e) {body rest : List Token} {t : Term} {extra : Scope}
    (hfree : e.IsFree → extra = []) (hderives : Derives .term body t) (hscope : t.ScopedIn extra) :
    before.map (·.token) ++ l.token :: rest ≠ body ++ [.finish] := by
  have hlocated : located s.items = before ++ l :: after := by rw [hitems, located_map]
  exact not_derives_of_located hended hstarts hlocated h hhalts hfree hderives hscope

end Parse

/-- The kinds that were expected. -/
def Cause.kinds : Cause → List String
  | .expected kinds _ | .wrongKind kinds _ | .unknownChar kinds _ => kinds
  | .general _ _ | .reduction _ _ | .freeVariable _ | .notRedex _ | .divisionByZero _ => []

/-- A variable stands where the grammar waits for an atom, outside every binder of its name. -/
def Unbound (ts : List Token) (token : Token) (x : String) : Prop :=
  token = .var x ∧ ∃ scope, Place ts scope .atom ∧ scope.lookup x = none

/-- A cause is about the first token that cannot be right, behind these tokens. It says what kind
of token that is and whether it is a free variable, and expects what the grammar allows there. -/
structure FirstError (ts : List Token) (token : Token) (cause : Cause) : Prop where
  viable : Viable ts
  stuck : ¬ Viable (ts ++ [token])
  unknownChar : ∀ char, (∃ kinds, cause = .unknownChar kinds char) ↔
    ∃ c, token = .unknown c ∧ char = String.singleton c
  freeVariable : ∀ x, cause = .freeVariable x ↔ Unbound ts token x
  otherwise : (∀ c, token ≠ .unknown c) → (∀ x, ¬ Unbound ts token x) →
    ∃ kinds, cause = .expected kinds token.kind.label ∨ cause = .wrongKind kinds token.kind.label
  allowed : ∀ label ∈ cause.kinds, ∃ kind, kind.label = label ∧ Allows ts kind

/-- No accepted list begins with these tokens and this one, and none of any tree does unless the
scope is to be the same. -/
def Refuted (same : Prop) (ts : List Token) (token : Token) : Prop :=
  ∀ ⦃body rest t extra⦄, (same → extra = []) → Derives .term body t → t.ScopedIn extra →
    ts ++ token :: rest ≠ body ++ [.finish]

variable {ts : List Token} {token : Token} {l : Located} {e : ParseFault} {same : Prop}

theorem Refuted.stuck (h : Refuted same ts token) : ¬ Viable (ts ++ [token]) := by
  rintro ⟨rest, body, t, hbody, hderives, hclosed⟩
  rw [List.append_assoc, List.singleton_append] at hbody
  exact h (fun _ => rfl) hderives hclosed hbody

/-- Where any scope may be taken, no variable is refused for being free. -/
theorem Refuted.not_unbound (h : Refuted same ts token) (hsame : ¬ same) (x : String) :
    ¬ Unbound ts token x := by
  rintro ⟨rfl, scope, hplace, -⟩
  obtain ⟨rest, u, hu, -⟩ := hplace.completes (.var x)
  have hscope := Term.scopedIn_of_names_subset (List.Subset.refl u.names)
  have hwhole : ts ++ .var x :: (rest ++ [.finish]) = ts ++ [.var x] ++ rest ++ [.finish] := by
    simp
  exact h (fun hs => absurd hs hsame) hu hscope hwhole

theorem Halts.viable (h : Halts ts l e) : Viable ts := by
  cases h with
  | unknownChar _ awaits | unexpected _ awaits | wrongKind _ awaits => exact awaits.viable
  | freeVariable _ place => exact place.awaits_starts.viable

theorem Awaits.labels {kinds : List Kind} (h : Awaits ts kinds) :
    ∀ label ∈ kinds.map Kind.label, ∃ kind, kind.label = label ∧ Allows ts kind := by
  intro label hlabel
  obtain ⟨kind, hkind, rfl⟩ := List.mem_map.mp hlabel
  exact ⟨kind, rfl, h.allows kind hkind⟩

theorem firstError_of_unknown {kinds : List Kind} {c : Char} (htoken : token = .unknown c)
    (hawaits : Awaits ts kinds) (hrefuted : Refuted same ts token) :
    FirstError ts token (.unknownChar (kinds.map Kind.label) (String.singleton c)) where
  viable := hawaits.viable
  stuck := hrefuted.stuck
  unknownChar := by
    intro char
    constructor
    · rintro ⟨kinds, hcause⟩
      cases hcause
      exact ⟨c, htoken, rfl⟩
    · rintro ⟨d, htoken', rfl⟩
      cases htoken.symm.trans htoken'
      exact ⟨_, rfl⟩
  freeVariable := by
    intro x
    refine iff_of_false (fun hcause => nomatch hcause) ?_
    rintro ⟨hvar, -⟩
    cases htoken.symm.trans hvar
  otherwise := fun hknown => absurd htoken (hknown c)
  allowed := hawaits.labels

theorem firstError_of_known {kinds : List Kind} {cause : Cause}
    (hknown : ∀ c, token ≠ .unknown c) (hawaits : Awaits ts kinds)
    (hrefuted : Refuted same ts token) (hsame : ¬ same)
    (hcause : cause = .expected (kinds.map Kind.label) token.kind.label ∨
      cause = .wrongKind (kinds.map Kind.label) token.kind.label) : FirstError ts token cause where
  viable := hawaits.viable
  stuck := hrefuted.stuck
  unknownChar := by
    intro char
    apply iff_of_false
    · rintro ⟨kinds, rfl⟩
      obtain hcause | hcause := hcause <;> cases hcause
    · rintro ⟨c, htoken, -⟩
      exact hknown c htoken
  freeVariable := by
    intro x
    refine iff_of_false ?_ (hrefuted.not_unbound hsame x)
    rintro rfl
    obtain hcause | hcause := hcause <;> cases hcause
  otherwise := fun _ _ => ⟨_, hcause⟩
  allowed := by
    obtain rfl | rfl := hcause <;> exact hawaits.labels

theorem firstError_of_unbound {x : String} {scope : Scope} (htoken : token = .var x)
    (hplace : Place ts scope .atom) (hunbound : scope.lookup x = none)
    (hrefuted : Refuted same ts token) : FirstError ts token (.freeVariable x) where
  viable := hplace.awaits_starts.viable
  stuck := hrefuted.stuck
  unknownChar := by
    intro char
    apply iff_of_false
    · rintro ⟨kinds, hcause⟩
      cases hcause
    · rintro ⟨c, hunknown, -⟩
      cases htoken.symm.trans hunknown
  freeVariable := by
    intro y
    constructor
    · intro hcause
      cases hcause
      exact ⟨htoken, scope, hplace, hunbound⟩
    · rintro ⟨htoken', -⟩
      cases htoken.symm.trans htoken'
      rfl
  otherwise := fun _ hbound => absurd ⟨htoken, scope, hplace, hunbound⟩ (hbound x)
  allowed := fun _ hlabel => absurd hlabel List.not_mem_nil

theorem Problem.freeVariable_of_text {name text : String} {start stop : Int}
    (h : text.isEmpty = false) :
    Problem.freeVariable name text start stop =
      { cause := .freeVariable name, text, start, stop := partEnd stop text } := by
  rw [freeVariable, h]
  rfl

/-- A failure that is refuted behind its token is reported there, as the first error. -/
theorem Halts.firstError {text : String} {p : Problem} (h : Halts ts l e)
    (hproblem : Fault.ofParse text e = .problem p) (hrefuted : Refuted e.IsFree ts l.token)
    (htext : l.token ≠ .finish → text.isEmpty = false) :
    p.start = l.start ∧ FirstError ts l.token p.cause := by
  cases h with
  | unknownChar htoken hawaits =>
      cases hproblem
      exact ⟨rfl, firstError_of_unknown htoken hawaits hrefuted⟩
  | @unexpected kinds hknown hawaits =>
      cases hproblem
      have hbound : ¬ (ParseFault.unexpected kinds l.token.kind l.start l.markEnd).IsFree := by
        rintro ⟨x, start, stop, hfree⟩
        cases hfree
      exact ⟨rfl, firstError_of_known hknown hawaits hrefuted hbound (.inl rfl)⟩
  | @wrongKind kind hknown hawaits =>
      cases hproblem
      have hbound : ¬ (ParseFault.stream
          (.wrongKind kind.label l.token.kind l.start l.markEnd)).IsFree := by
        rintro ⟨x, start, stop, hfree⟩
        cases hfree
      exact ⟨rfl, firstError_of_known hknown hawaits hrefuted hbound (.inr rfl)⟩
  | @freeVariable x scope htoken hplace hunbound =>
      have hfinish : l.token ≠ .finish := by
        rw [htoken]
        exact Token.noConfusion
      rw [Fault.ofParse, Problem.freeVariable_of_text (htext hfinish)] at hproblem
      cases hproblem
      exact ⟨rfl, firstError_of_unbound htoken hplace hunbound hrefuted⟩

theorem isEmpty_eq_false_of_mem {text : String} {ls : List Located}
    (h : Token.ofText text = .ok ls) (hl : l ∈ ls) (hfinish : l.token ≠ .finish) :
    text.isEmpty = false := by
  refine Bool.eq_false_iff.mpr fun hempty => hfinish ?_
  obtain rfl := String.isEmpty_iff.mp hempty
  have hscan : scan 0 [] = ls.map .token := Token.ofText_eq_ok_iff.mp h
  rw [scan_of_blank rfl] at hscan
  obtain ⟨m, rfl, hm⟩ := List.map_eq_singleton_iff.mp hscan.symm
  cases hm
  rw [List.mem_singleton.mp hl]

/-- The stream of a text whose tokens are all within the limit stands in front of them. -/
theorem Stream.exists_of_tokens_of_text {text : String} {ls : List Located}
    (h : Token.ofText text = .ok ls) :
    ∃ s, Stream.ofText text = .ok s ∧ s.items = ls.map .token := by
  rw [Token.ofText_eq_ok_iff] at h
  cases ls with
  | nil => exact absurd h (ended_scan 0 text.toList).ne_nil
  | cons l ls =>
      obtain ⟨s, hs, hitems⟩ := Stream.exists_ofText h
      exact ⟨s, hs, hitems.trans h⟩

/-- A text that is no term, and in which no literal has too many digits, is reported at the first
token that cannot be right: what is in front of it begins an accepted list, and with it nothing
accepted begins. The report can always be given. Its start is the start of that token alone. -/
theorem Term.parse_first_error {text : String} {tokens : List Located} {fault : ParseFault}
    (htokens : Token.ofText text = .ok tokens) (hparse : Term.parse text = .error fault) :
    ∃ before l after problem, tokens = before ++ l :: after ∧
      (∀ host, (Fault.ofParse text fault).settle host = .problem problem) ∧
      problem.start = l.start ∧ (∀ m ∈ before ++ after, m.start ≠ l.start) ∧
      FirstError (before.map (·.token)) l.token problem.cause := by
  obtain ⟨s, hs, hitems⟩ := Stream.exists_of_tokens_of_text htokens
  have hscan := Token.ofText_eq_ok_iff.mp htokens
  have hended : Ended s.items := hitems ▸ hscan ▸ ended_scan 0 text.toList
  obtain ⟨q, hwhole⟩ : ∃ q, whole ⟨s, 0⟩ = .error fault q := by
    obtain ⟨_, herror, -⟩ | ⟨s', q, hs', hwhole⟩ := Term.parse_error hparse
    · cases hs.symm.trans herror
    · cases hs.symm.trans hs'
      exact ⟨q, hwhole⟩
  obtain ⟨before, l, after, rfl, hhalts, -⟩ :=
    exists_halts hended hitems (Nat.le_refl _) [] hwhole
  have hstarts : StartFrom 0 (before ++ l :: after) := startFrom_of_scan 0 text.toList _ hscan
  have hrefuted : Refuted fault.IsFree (before.map (·.token)) l.token :=
    fun _ _ _ _ hfree hderives hscope =>
      not_derives_of_halts hended hstarts hitems hwhole hhalts hfree hderives hscope
  have htext : l.token ≠ .finish → text.isEmpty = false :=
    isEmpty_eq_false_of_mem htokens (List.mem_append_right _ List.mem_cons_self)
  obtain ⟨problem, hproblem, hsayable⟩ := hhalts.exists_problem text
  obtain ⟨hstart, hfirst⟩ := hhalts.firstError hproblem hrefuted htext
  refine ⟨before, l, after, problem, rfl, ?_, hstart, hstarts.start_ne, hfirst⟩
  intro host
  rw [hproblem]
  exact hsayable.settle host

/-- The name of a `let` is free in its value, and the text goes wrong there. -/
theorem Term.parse_first_error_let :
    Token.ofText "let f = f in f" = .ok
        ([⟨.mark .letWord, 0, 3⟩, ⟨.var "f", 4, 5⟩, ⟨.mark .equals, 6, 7⟩] ++
          ⟨.var "f", 8, 9⟩ :: [⟨.mark .inWord, 10, 12⟩, ⟨.var "f", 13, 14⟩, ⟨.finish, 14, 14⟩]) ∧
      Term.parse "let f = f in f" = .error (.freeVariable "f" 8 9) ∧
      Viable [.mark .letWord, .var "f", .mark .equals] ∧
      ¬ Viable [.mark .letWord, .var "f", .mark .equals, .var "f"] ∧
      Unbound [.mark .letWord, .var "f", .mark .equals] (.var "f") "f" := by
  have htokens : Token.ofText "let f = f in f" = .ok
      ([⟨.mark .letWord, 0, 3⟩, ⟨.var "f", 4, 5⟩, ⟨.mark .equals, 6, 7⟩] ++
        ⟨.var "f", 8, 9⟩ :: [⟨.mark .inWord, 10, 12⟩, ⟨.var "f", 13, 14⟩, ⟨.finish, 14, 14⟩]) := by
    decide +kernel
  have hparse : Term.parse "let f = f in f" = .error (.freeVariable "f" 8 9) := by
    decide +kernel
  obtain ⟨before, l, after, problem, hsplit, hproblem, hstart, -, hfirst⟩ :=
    Term.parse_first_error htokens hparse
  have hsaid := (Problem.sayable_freeVariable "f" "let f = f in f" 8 9).settle false
  cases (hproblem false).symm.trans hsaid
  have hstarts := startFrom_of_scan 0 _ _ (Token.ofText_eq_ok_iff.mp htokens)
  obtain ⟨rfl, rfl⟩ := hstarts.unique hsplit (Int.ofNat.inj hstart)
  exact ⟨htokens, hparse, hfirst.viable, hfirst.stuck, (hfirst.freeVariable "f").mp rfl⟩

end Contractum
