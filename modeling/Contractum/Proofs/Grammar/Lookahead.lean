import Contractum.Proofs.Grammar.Acceptance
import Contractum.Proofs.Grammar.Places
import Contractum.Proofs.Results

/-!
# One token of lookahead

A reader looks at the tokens that it passes and at the one behind them, and at nothing else. So
it comes to the same end on every stream that begins in this way: it passes the same tokens and
succeeds, or it fails at the same token.

A failure is described by the token at which it happens. In front of it is what can still become
an accepted list, and what was expected there is what the grammar allows. A literal of too many
digits is no token: it ends the reading where it is met, and of other streams nothing is said then.
-/

namespace Contractum

open Parse

namespace Stream

variable {s s' s₁ s₁' : Stream} {token : Token} {ts us : List Token}

/-- Every token but the last can be taken, unless a literal of too many digits follows it. -/
theorem takes_or_tooLong (h : Ended s.items) (htoken : s.current.token = token)
    (hgoes : token.ends = false) :
    (∃ s', s.Takes token s') ∨
      ∃ digits stop s', s.next = .error (.tooLong digits) s' ∧ .tooLong digits stop ∈ s.items := by
  have hahead : Ended s.ahead := h.tail (by rw [Item.ends, htoken, hgoes])
  cases hitems : s.ahead with
  | nil => exact absurd hitems hahead.ne_nil
  | cons item items =>
      cases item with
      | token t =>
          refine .inl ⟨{ s with current := t, ahead := items, pos := t.readTo }, htoken, ?_⟩
          rw [next, hitems]
      | tooLong digits stop =>
          refine .inr ⟨digits, stop, { s with ahead := items, pos := stop }, ?_, ?_⟩
          · rw [next, hitems]
          · rw [Stream.items, hitems]
            exact List.mem_cons_of_mem _ List.mem_cons_self

/-- What is in front of a stream behind passed tokens was in front of it before them. -/
theorem passes_ended (h : Ended s.items) (hts : ∀ token ∈ ts, token.ends = false)
    (hpass : s.Passes ts s') :
    Ended s'.items ∧ s'.items ⊆ s.items ∧ s.ahead.length = ts.length + s'.ahead.length := by
  obtain ⟨ls, rfl, hitems, hended⟩ := items_of_passes h hts hpass
  refine ⟨hended, ?_, ?_⟩
  · rw [hitems]
    exact List.subset_append_right _ _
  · have hlength := congrArg List.length hitems
    simp only [items, List.length_cons, List.length_append, List.length_map] at hlength ⊢
    omega

/-- The tokens between two points of a stream are determined. -/
theorem passes_unique (h : Ended s.items) (hts : ∀ token ∈ ts, token.ends = false)
    (hus : ∀ token ∈ us, token.ends = false) (hpass : s.Passes ts s') (hpass' : s.Passes us s') :
    ts = us := by
  obtain ⟨ls, rfl, hitems, -⟩ := items_of_passes h hts hpass
  obtain ⟨ms, rfl, hitems', -⟩ := items_of_passes h hus hpass'
  have hmap : ls.map Item.token = ms.map Item.token :=
    List.append_cancel_right (hitems.symm.trans hitems')
  rw [(List.map_inj_right fun _ _ => Item.token.inj).mp hmap]

/-- Streams with the same tokens in front, and the same token behind these, have the same current
token. -/
theorem current_eq_of_passes (h : s.Passes ts s₁) (h' : s'.Passes ts s₁')
    (hlook : s₁'.current.token = s₁.current.token) : s'.current.token = s.current.token := by
  cases ts with
  | nil =>
      obtain rfl := passes_nil_iff.mp h
      obtain rfl := passes_nil_iff.mp h'
      exact hlook
  | cons token ts =>
      obtain ⟨s₂, hfirst, -⟩ := passes_cons_iff.mp h
      obtain ⟨s₃, hfirst', -⟩ := passes_cons_iff.mp h'
      rw [hfirst.1, hfirst'.1]

end Stream

/-- Whether a reading failed at a variable outside every binder of its name. -/
def ParseFault.IsFree (e : ParseFault) : Prop :=
  ∃ x start stop, e = .freeVariable x start stop

/-- A failure at a token, behind tokens of an accepted list: what was expected is what the grammar
allows, and a variable is refused where the grammar waits for an atom outside its binders. -/
inductive Halts (ts : List Token) (l : Located) : ParseFault → Prop
  | unknownChar {kinds : List Kind} {c : Char} (token : l.token = .unknown c)
      (awaits : Awaits ts kinds) : Halts ts l (.unknownChar kinds c l.start)
  | unexpected {kinds : List Kind} (known : ∀ c, l.token ≠ .unknown c) (awaits : Awaits ts kinds) :
      Halts ts l (.unexpected kinds l.token.kind l.start l.markEnd)
  | wrongKind {kind : Kind} (known : ∀ c, l.token ≠ .unknown c) (awaits : Awaits ts [kind]) :
      Halts ts l (.stream (.wrongKind kind.label l.token.kind l.start l.markEnd))
  | freeVariable {x : String} {scope : Scope} (token : l.token = .var x)
      (place : Place ts scope .atom) (unbound : scope.lookup x = none) :
      Halts ts l (.freeVariable x l.start l.stop)

namespace Parse

variable {α β : Type} {ts us : List Token} {p q : ParseState} {same : Prop}

theorem discard_next_error {fault : StreamFault} {s' : Stream}
    (h : p.stream.next = .error fault s') :
    (discard next : Parse Unit) p = .error (.stream fault) ⟨s', p.count⟩ := by
  have hnext : next p = .error (.stream fault) ⟨s', p.count⟩ := by
    rw [next, h]
  exact discard_of_error hnext

theorem fail_of_unknown {kinds : List Kind} {c : Char} (h : p.stream.current.token = .unknown c) :
    (fail kinds : Parse α) p = .error (.unknownChar kinds c p.stream.current.start) p := by
  rw [fail, peek_bind_run, h]
  rfl

theorem fail_of_known {kinds : List Kind} (h : ∀ c, p.stream.current.token ≠ .unknown c) :
    (fail kinds : Parse α) p = .error (.unexpected kinds p.stream.current.token.kind
      p.stream.current.start p.stream.current.markEnd) p := by
  rw [fail, peek_bind_run]
  cases htoken : p.stream.current.token with
  | unknown c => exact absurd htoken (h c)
  | mark | var | constr | literal | finish => rfl

theorem failKind_of_unknown {kind : Kind} {c : Char} (h : p.stream.current.token = .unknown c) :
    (failKind kind : Parse α) p = .error (.unknownChar [kind] c p.stream.current.start) p := by
  rw [failKind, peek_bind_run, h]
  rfl

theorem failKind_of_known {kind : Kind} (h : ∀ c, p.stream.current.token ≠ .unknown c) :
    (failKind kind : Parse α) p = .error (.stream (.wrongKind kind.label
      p.stream.current.token.kind p.stream.current.start p.stream.current.markEnd)) p := by
  rw [failKind, peek_bind_run]
  cases htoken : p.stream.current.token with
  | unknown c => exact absurd htoken (h c)
  | mark | var | constr | literal | finish => rfl

/-- Refusing the current token is a failure at it, where the expected kinds are awaited. -/
theorem exists_fail (kinds : List Kind) (p : ParseState) :
    ∃ e, (fail kinds : Parse α) p = .error e p ∧
      ∀ ts, Awaits ts kinds → Halts ts p.stream.current e := by
  by_cases h : ∃ c, p.stream.current.token = .unknown c
  · obtain ⟨c, hc⟩ := h
    exact ⟨_, fail_of_unknown hc, fun _ => .unknownChar hc⟩
  · have hknown : ∀ c, p.stream.current.token ≠ .unknown c := not_exists.mp h
    exact ⟨_, fail_of_known hknown, fun _ => .unexpected hknown⟩

theorem exists_failKind (kind : Kind) (p : ParseState) :
    ∃ e, (failKind kind : Parse α) p = .error e p ∧
      ∀ ts, Awaits ts [kind] → Halts ts p.stream.current e := by
  by_cases h : ∃ c, p.stream.current.token = .unknown c
  · obtain ⟨c, hc⟩ := h
    exact ⟨_, failKind_of_unknown hc, fun _ => .unknownChar hc⟩
  · have hknown : ∀ c, p.stream.current.token ≠ .unknown c := not_exists.mp h
    exact ⟨_, failKind_of_known hknown, fun _ => .wrongKind hknown⟩

/-- The result of a reader at `p`, behind the tokens `ts`, and what it says of another reader: on
every stream with the same tokens in front that one comes to the same end. A variable that is
free in the one reader may be bound in the other, unless both are in the same scope. -/
inductive Mirrors (same : Prop) (ts : List Token) (p : ParseState) (y : Parse α) :
    EStateM.Result ParseFault ParseState α → Prop
  | ok {a : α} {q : ParseState} {us : List Token} (passes : p.stream.Passes us q.stream)
      (goesOn : ∀ token ∈ us, token.ends = false)
      (again : ∀ p' s', p'.stream.Passes us s' → s'.current.token = q.stream.current.token →
        p'.count = p.count → y p' = .ok a ⟨s', q.count⟩) :
      Mirrors same ts p y (.ok a q)
  | error {e : ParseFault} {q : ParseState} {s : Stream} {us : List Token}
      (passes : p.stream.Passes us s) (goesOn : ∀ token ∈ us, token.ends = false)
      (halts : Halts (ts ++ us) s.current e)
      (again : (e.IsFree → same) → ∀ p' s', p'.stream.Passes us s' →
        s'.current.token = s.current.token → p'.count = p.count → ∃ e' q', y p' = .error e' q') :
      Mirrors same ts p y (.error e q)
  | tooLong {digits stop : Nat} {q : ParseState} (met : .tooLong digits stop ∈ p.stream.items) :
      Mirrors same ts p y (.error (.stream (.tooLong digits)) q)

namespace Mirrors

theorem bind {x y : Parse α} {f g : α → Parse β} (hended : Ended p.stream.items)
    (hx : Mirrors same ts p y (x p))
    (hf : ∀ a q, x p = .ok a q → ∃ us, p.stream.Passes us q.stream ∧
      (∀ token ∈ us, token.ends = false) ∧ Mirrors same (ts ++ us) q (g a) (f a q)) :
    Mirrors same ts p (y >>= g) ((x >>= f) p) := by
  generalize hrun : x p = result at hx
  cases hx with
  | @ok a q us hpass hgoes again =>
      rw [bind_of_ok hrun]
      obtain ⟨us', hpass', hgoes', hnext⟩ := hf a q hrun
      obtain rfl := Stream.passes_unique hended hgoes hgoes' hpass hpass'
      generalize f a q = result at hnext
      cases hnext with
      | @ok b r vs hpass₂ hgoes₂ again₂ =>
          refine .ok (hpass.append hpass₂) (List.forall_mem_append.mpr ⟨hgoes, hgoes₂⟩) ?_
          intro p' s' hp' hlook hcount
          obtain ⟨t, hfirst, hsecond⟩ := Stream.passes_append_iff.mp hp'
          have hmiddle := Stream.current_eq_of_passes hpass₂ hsecond hlook
          rw [bind_of_ok (again p' t hfirst hmiddle hcount)]
          exact again₂ ⟨t, q.count⟩ s' hsecond hlook rfl
      | @error e r s vs hpass₂ hgoes₂ halts₂ again₂ =>
          rw [List.append_assoc] at halts₂
          refine .error (hpass.append hpass₂) (List.forall_mem_append.mpr ⟨hgoes, hgoes₂⟩) halts₂ ?_
          intro hfree p' s' hp' hlook hcount
          obtain ⟨t, hfirst, hsecond⟩ := Stream.passes_append_iff.mp hp'
          have hmiddle := Stream.current_eq_of_passes hpass₂ hsecond hlook
          rw [bind_of_ok (again p' t hfirst hmiddle hcount)]
          exact again₂ hfree ⟨t, q.count⟩ s' hsecond hlook rfl
      | tooLong met =>
          obtain ⟨-, hsubset, -⟩ := Stream.passes_ended hended hgoes hpass
          exact .tooLong (hsubset met)
  | @error e q s us hpass hgoes halts again =>
      rw [bind_of_error hrun]
      refine .error hpass hgoes halts ?_
      intro hfree p' s' hp' hlook hcount
      obtain ⟨e', q', hy⟩ := again hfree p' s' hp' hlook hcount
      exact ⟨e', q', bind_of_error hy⟩
  | tooLong met =>
      rw [bind_of_error hrun]
      exact .tooLong met

/-- On streams with the same current token the other reader may be replaced. -/
theorem congr {x y : Parse α} {result : EStateM.Result ParseFault ParseState α}
    (h : Mirrors same ts p y result)
    (hxy : ∀ p', p'.stream.current.token = p.stream.current.token → x p' = y p') :
    Mirrors same ts p x result := by
  cases h with
  | ok hpass hgoes again =>
      refine .ok hpass hgoes ?_
      intro p' s' hp' hlook hcount
      rw [hxy p' (Stream.current_eq_of_passes hpass hp' hlook)]
      exact again p' s' hp' hlook hcount
  | error hpass hgoes halts again =>
      refine .error hpass hgoes halts ?_
      intro hfree p' s' hp' hlook hcount
      rw [hxy p' (Stream.current_eq_of_passes hpass hp' hlook)]
      exact again hfree p' s' hp' hlook hcount
  | tooLong met => exact .tooLong met

/-- A failure at the current token, which the other reader refuses as well. -/
theorem error_here {y : Parse α} {e : ParseFault} {q : ParseState}
    (halts : Halts ts p.stream.current e)
    (again : (e.IsFree → same) → ∀ p', p'.stream.current.token = p.stream.current.token →
      ∃ e' q', y p' = .error e' q') : Mirrors same ts p y (.error e q) := by
  rw [← List.append_nil ts] at halts
  refine .error (.refl p.stream) (List.forall_mem_nil _) halts ?_
  intro hfree p' s' hp' hlook hcount
  obtain rfl := Stream.passes_nil_iff.mp hp'
  exact again hfree p' hlook

theorem refused {kinds : List Kind} (h : Awaits ts kinds) :
    Mirrors same ts p (fail kinds) ((fail kinds : Parse α) p) := by
  obtain ⟨e, hrun, halts⟩ := exists_fail (α := α) kinds p
  rw [hrun]
  refine error_here (halts ts h) ?_
  intro _ p' _
  obtain ⟨e', hrun', -⟩ := exists_fail (α := α) kinds p'
  exact ⟨e', p', hrun'⟩

theorem refusedKind {kind : Kind} (h : Awaits ts [kind]) :
    Mirrors same ts p (failKind kind) ((failKind kind : Parse α) p) := by
  obtain ⟨e, hrun, halts⟩ := exists_failKind (α := α) kind p
  rw [hrun]
  refine error_here (halts ts h) ?_
  intro _ p' _
  obtain ⟨e', hrun', -⟩ := exists_failKind (α := α) kind p'
  exact ⟨e', p', hrun'⟩

theorem returned (a : α) : Mirrors same ts p (pure a) ((pure a : Parse α) p) := by
  refine .ok (.refl p.stream) (List.forall_mem_nil _) ?_
  intro p' s' hp' _ hcount
  obtain rfl := Stream.passes_nil_iff.mp hp'
  rw [← hcount]
  rfl

variable {f g : α → Parse β}

/-- A reader that does nothing but take one token comes to the same end wherever it stands. -/
theorem taken {x : Parse α} {token : Token} {a : α} (hended : Ended p.stream.items)
    (htoken : p.stream.current.token = token) (hgoes : token.ends = false)
    (hrun : ∀ {s s' count}, s.Takes token s' → x ⟨s, count⟩ = .ok a ⟨s', count⟩)
    (hfail : ∀ {fault s'}, p.stream.next = .error fault s' →
      x p = .error (.stream fault) ⟨s', p.count⟩) : Mirrors same ts p x (x p) := by
  obtain ⟨s', htakes⟩ | ⟨digits, stop, s', hnext, hmet⟩ :=
    Stream.takes_or_tooLong hended htoken hgoes
  · have hhere : x p = .ok a ⟨s', p.count⟩ := hrun htakes
    rw [hhere]
    refine .ok htakes.passes (List.forall_mem_singleton.mpr hgoes) ?_
    intro p' s₁ hp' _ hcount
    rw [← hcount]
    exact hrun (Stream.passes_singleton_iff.mp hp')
  · rw [hfail hnext]
    exact .tooLong hmet

/-- Behind a reader that takes one token, the rest is read on the stream behind it. -/
theorem bind_taking {x y : Parse α} (token : α → Token) (hended : Ended p.stream.items)
    (hx : Mirrors same ts p y (x p)) (hgoes : ∀ a, (token a).ends = false)
    (htakes : ∀ a q, x p = .ok a q → ∃ s', p.stream.Takes (token a) s' ∧ q = ⟨s', p.count⟩)
    (hrest : ∀ a s', Ended s'.items → p.stream.ahead.length = s'.ahead.length + 1 →
      Mirrors same (ts ++ [token a]) ⟨s', p.count⟩ (g a) (f a ⟨s', p.count⟩)) :
    Mirrors same ts p (y >>= g) ((x >>= f) p) := by
  refine bind hended hx ?_
  intro a q hrun
  obtain ⟨s', htake, rfl⟩ := htakes a q hrun
  have hgoes' : ∀ u ∈ [token a], u.ends = false := List.forall_mem_singleton.mpr (hgoes a)
  obtain ⟨hs', -, hlength⟩ := Stream.passes_ended hended hgoes' htake.passes
  refine ⟨[token a], htake.passes, hgoes', hrest a s' hs' ?_⟩
  rw [hlength, List.length_singleton, Nat.add_comm]

theorem next_bind {token : Token} {r r' : Parse β} (hended : Ended p.stream.items)
    (htoken : p.stream.current.token = token) (hgoes : token.ends = false)
    (hrest : ∀ s', Ended s'.items → p.stream.ahead.length = s'.ahead.length + 1 →
      Mirrors same (ts ++ [token]) ⟨s', p.count⟩ r' (r ⟨s', p.count⟩)) :
    Mirrors same ts p (discard next >>= fun _ => r') ((discard next >>= fun _ => r) p) := by
  have htaken : Mirrors same ts p (discard next) ((discard next : Parse Unit) p) :=
    taken hended htoken hgoes discard_next_run discard_next_error
  exact bind_taking (fun _ => token) hended htaken (fun _ => hgoes)
    (fun _ _ => (discard_next_eq_ok_iff htoken).mp) fun _ => hrest

theorem named (hended : Ended p.stream.items) (h : Awaits ts [.var]) :
    Mirrors same ts p name (name p) := by
  have hother {q : ParseState} (hq : ∀ x, q.stream.current.token ≠ .var x) :
      name q = failKind .var q := by
    rw [name, peek_bind_run]
    cases htoken : q.stream.current.token with
    | var x => exact absurd htoken (hq x)
    | mark | constr | literal | finish | unknown => rfl
  by_cases hvar : ∃ x, p.stream.current.token = .var x
  · obtain ⟨x, hx⟩ := hvar
    refine taken hended hx rfl name_run fun hnext => ?_
    rw [name, peek_bind_run, hx]
    exact bind_of_error (discard_next_error hnext)
  · rw [hother (not_exists.mp hvar)]
    refine (refusedKind h).congr fun p' hp' => hother ?_
    rw [hp']
    exact not_exists.mp hvar

theorem name_bind {f g : String → Parse β} (hended : Ended p.stream.items) (h : Awaits ts [.var])
    (hrest : ∀ x s', Ended s'.items → p.stream.ahead.length = s'.ahead.length + 1 →
      Mirrors same (ts ++ [.var x]) ⟨s', p.count⟩ (g x) (f x ⟨s', p.count⟩)) :
    Mirrors same ts p (name >>= g) ((name >>= f) p) :=
  bind_taking .var hended (named hended h) (fun _ => rfl) (fun _ _ => name_eq_ok_iff.mp) hrest

theorem expected {m : Mark} (hended : Ended p.stream.items) (h : Awaits ts [.mark m]) :
    Mirrors same ts p (expect m) (expect m p) := by
  have hother {q : ParseState} (hq : q.stream.current.token ≠ .mark m) :
      expect m q = failKind (.mark m) q := by
    rw [expect, peek_bind_run, if_neg hq]
  by_cases hmark : p.stream.current.token = .mark m
  · refine taken hended hmark rfl expect_run fun hnext => ?_
    rw [expect, peek_bind_run, if_pos hmark]
    exact discard_next_error hnext
  · rw [hother hmark]
    refine (refusedKind h).congr fun p' hp' => hother ?_
    rwa [hp']

theorem expect_bind {m : Mark} {r r' : Parse β} (hended : Ended p.stream.items)
    (h : Awaits ts [.mark m])
    (hrest : ∀ s', Ended s'.items → p.stream.ahead.length = s'.ahead.length + 1 →
      Mirrors same (ts ++ [.mark m]) ⟨s', p.count⟩ r' (r ⟨s', p.count⟩)) :
    Mirrors same ts p (expect m >>= fun _ => r') ((expect m >>= fun _ => r) p) :=
  bind_taking (fun _ => .mark m) hended (expected hended h) (fun _ => rfl)
    (fun _ _ => expect_eq_ok_iff.mp) fun _ => hrest

theorem newId_bind {f g : Option Int → Parse β} (hended : Ended p.stream.items)
    (hrest : Mirrors same ts ⟨p.stream, p.count + 1⟩ (g (some (p.count : Int)))
      (f (some (p.count : Int)) ⟨p.stream, p.count + 1⟩)) :
    Mirrors same ts p (newId >>= g) ((newId >>= f) p) := by
  have hid : Mirrors same ts p newId (newId p) := by
    refine .ok (.refl p.stream) (List.forall_mem_nil _) ?_
    intro p' s' hp' _ hcount
    obtain rfl := Stream.passes_nil_iff.mp hp'
    rw [← hcount]
    rfl
  refine bind hended hid ?_
  intro id q hrun
  obtain ⟨rfl, rfl⟩ := newId_eq_ok_iff.mp hrun
  rw [← List.append_nil ts] at hrest
  exact ⟨[], .refl _, List.forall_mem_nil _, hrest⟩

/-- Behind a rule of the grammar, the rest is read behind the tokens that the rule derived. -/
theorem rule_bind {x y : Parse Term} {f g : Term → Parse β} {tier : Tier} {scope : Scope}
    (hended : Ended p.stream.items) (hx : Mirrors same ts p y (x p))
    (hreads : ∀ {u q}, x p = .ok u q → Reads tier scope p u q)
    (hrest : ∀ u q us t, Derives tier us t → t.ScopedIn scope → Ended q.stream.items →
      p.stream.ahead.length = us.length + q.stream.ahead.length →
        Mirrors same (ts ++ us) q (g u) (f u q)) :
    Mirrors same ts p (y >>= g) ((x >>= f) p) := by
  refine bind hended hx ?_
  intro u q hrun
  obtain ⟨us, t, hpass, hderives, hscope, -, -⟩ := hreads hrun
  obtain ⟨hq, -, hlength⟩ := Stream.passes_ended hended hderives.not_ends hpass
  exact ⟨us, hpass, hderives.not_ends, hrest u q us t hderives hscope hq hlength⟩

end Mirrors

end Parse

end Contractum
