import Contractum.Term.Parser

/-!
# Taking tokens off a stream

The rules of the grammar look at the current token of a stream and take it, so a run of
them passes over a list of tokens. What a successful run of a reader has done is read off
its parts: each lemma here says for one reader when it succeeds and where it leaves the
stream and the number of the next binder.
-/

namespace Contractum

namespace Stream

/-- The current token is consumed, and the stream goes on to the next one. -/
def Takes (s : Stream) (token : Token) (s' : Stream) : Prop :=
  s.current.token = token ∧ s.next = .ok s.current s'

/-- A list of tokens is consumed. -/
inductive Passes : Stream → List Token → Stream → Prop
  | refl (s : Stream) : Passes s [] s
  | step {s s₁ s₂ : Stream} {token : Token} {tokens : List Token}
      (first : s.Takes token s₁) (rest : Passes s₁ tokens s₂) : Passes s (token :: tokens) s₂

variable {s s₁ s₂ s₃ : Stream} {token : Token} {ts us : List Token}

theorem Takes.passes (h : s.Takes token s₁) : s.Passes [token] s₁ :=
  .step h (.refl s₁)

theorem Passes.append (h₁ : s₁.Passes ts s₂) (h₂ : s₂.Passes us s₃) : s₁.Passes (ts ++ us) s₃ := by
  induction h₁ with
  | refl => exact h₂
  | step first _ ih => exact .step first (ih h₂)

theorem passes_cons_iff : s.Passes (token :: ts) s₂ ↔ ∃ s₁, s.Takes token s₁ ∧ s₁.Passes ts s₂ := by
  constructor
  · intro h
    cases h with
    | step first rest => exact ⟨_, first, rest⟩
  · rintro ⟨s₁, first, rest⟩
    exact .step first rest

@[simp] theorem passes_nil_iff : s.Passes [] s₁ ↔ s₁ = s := by
  constructor
  · intro h
    cases h
    rfl
  · rintro rfl
    exact .refl s₁

theorem passes_append_iff : s.Passes (ts ++ us) s₂ ↔ ∃ s₁, s.Passes ts s₁ ∧ s₁.Passes us s₂ := by
  induction ts generalizing s with
  | nil => simp
  | cons token ts ih =>
      rw [List.cons_append, passes_cons_iff]
      constructor
      · rintro ⟨s₁, first, rest⟩
        obtain ⟨s₃, hts, hus⟩ := ih.mp rest
        exact ⟨s₃, .step first hts, hus⟩
      · rintro ⟨s₃, hts, hus⟩
        obtain ⟨s₁, first, rest⟩ := passes_cons_iff.mp hts
        exact ⟨s₁, first, ih.mpr ⟨s₃, rest, hus⟩⟩

@[simp] theorem passes_singleton_iff : s.Passes [token] s₁ ↔ s.Takes token s₁ := by
  rw [passes_cons_iff]
  simp

end Stream

namespace Parse

variable {α β : Type} {s s' : Stream} {p p' : ParseState}

theorem bind_eq_ok_iff {x : Parse α} {f : α → Parse β} {b : β} :
    (x >>= f) p = .ok b p' ↔ ∃ a q, x p = .ok a q ∧ f a q = .ok b p' := by
  change EStateM.bind x f p = .ok b p' ↔ _
  rw [EStateM.bind]
  cases h : x p with
  | ok a q =>
      constructor
      · exact fun hf => ⟨a, q, rfl, hf⟩
      · rintro ⟨a, q, ⟨rfl, rfl⟩, hf⟩
        exact hf
  | error e q =>
      constructor
      · intro hf
        cases hf
      · rintro ⟨a, q, heq, -⟩
        cases heq

theorem bind_run {x : Parse α} {f : α → Parse β} {a : α} (h : x p = .ok a p') :
    (x >>= f) p = f a p' := by
  change EStateM.bind x f p = _
  rw [EStateM.bind, h]

theorem pure_eq_ok_iff {a b : α} : (pure a : Parse α) p = .ok b p' ↔ b = a ∧ p' = p := by
  change EStateM.Result.ok a p = .ok b p' ↔ _
  constructor
  · intro h
    injection h with ha hp
    exact ⟨ha.symm, hp.symm⟩
  · rintro ⟨rfl, rfl⟩
    rfl

theorem throw_ne_ok {e : ParseFault} {b : α} : (throw e : Parse α) p ≠ .ok b p' := by
  intro h
  cases h

/-- Looking at the current token changes nothing. -/
theorem peek_bind_run {f : Located → Parse β} : (peek >>= f) p = f p.stream.current p := rfl

theorem fail_ne_ok {expected : List Kind} {b : α} : (fail expected : Parse α) p ≠ .ok b p' := by
  intro h
  rw [fail, peek_bind_run] at h
  cases htoken : p.stream.current.token <;> simp only [htoken] at h <;> exact throw_ne_ok h

theorem failKind_ne_ok {expected : Kind} {b : α} : (failKind expected : Parse α) p ≠ .ok b p' := by
  intro h
  rw [failKind, peek_bind_run] at h
  cases htoken : p.stream.current.token <;> simp only [htoken] at h <;> exact throw_ne_ok h

/-- A consumed token is the current one. -/
theorem next_current {t : Located} (h : s.next = .ok t s') : t = s.current := by
  rw [Stream.next] at h
  split at h <;> cases h <;> rfl

theorem discard_next_eq_ok_iff {u : Unit} {token : Token} (h : p.stream.current.token = token) :
    (discard next : Parse Unit) p = .ok u p' ↔
      ∃ s', p.stream.Takes token s' ∧ p' = ⟨s', p.count⟩ := by
  change (next >>= fun _ => pure ()) p = .ok u p' ↔ _
  rw [bind_eq_ok_iff]
  simp only [next, pure_eq_ok_iff]
  cases hnext : p.stream.next with
  | ok t s₁ =>
      rw [next_current hnext] at hnext
      constructor
      · rintro ⟨a, q, heq, -, rfl⟩
        cases heq
        exact ⟨s₁, ⟨h, hnext⟩, rfl⟩
      · rintro ⟨s', htakes, rfl⟩
        cases hnext.symm.trans htakes.2
        exact ⟨t, ⟨s₁, p.count⟩, rfl, trivial, rfl⟩
  | error e s₁ =>
      constructor
      · rintro ⟨a, q, heq, -⟩
        cases heq
      · rintro ⟨s', htakes, -⟩
        cases hnext.symm.trans htakes.2

theorem expect_eq_ok_iff {m : Mark} {u : Unit} :
    expect m p = .ok u p' ↔ ∃ s', p.stream.Takes (.mark m) s' ∧ p' = ⟨s', p.count⟩ := by
  rw [expect, peek_bind_run]
  by_cases h : p.stream.current.token = .mark m
  · rw [if_pos h]
    exact discard_next_eq_ok_iff h
  · rw [if_neg h]
    apply iff_of_false failKind_ne_ok
    rintro ⟨s', htakes, -⟩
    exact h htakes.1

theorem name_eq_ok_iff {x : String} :
    name p = .ok x p' ↔ ∃ s', p.stream.Takes (.var x) s' ∧ p' = ⟨s', p.count⟩ := by
  rw [name, peek_bind_run]
  cases h : p.stream.current.token with
  | var y =>
      simp only [bind_eq_ok_iff, discard_next_eq_ok_iff h, pure_eq_ok_iff]
      constructor
      · rintro ⟨_, _, ⟨s', htakes, rfl⟩, rfl, rfl⟩
        exact ⟨s', htakes, rfl⟩
      · rintro ⟨s', htakes, rfl⟩
        obtain rfl : y = x := Token.var.inj (h.symm.trans htakes.1)
        exact ⟨(), ⟨s', p.count⟩, ⟨s', htakes, rfl⟩, rfl, rfl⟩
  | mark | constr | literal | finish | unknown =>
      apply iff_of_false failKind_ne_ok
      rintro ⟨s', htakes, -⟩
      cases h.symm.trans htakes.1

theorem newId_eq_ok_iff {id : Option Int} :
    newId p = .ok id p' ↔ id = some (p.count : Int) ∧ p' = ⟨p.stream, p.count + 1⟩ := by
  change EStateM.Result.ok (some (p.count : Int)) (ParseState.mk p.stream (p.count + 1)) =
    .ok id p' ↔ _
  constructor
  · intro h
    cases h
    exact ⟨rfl, rfl⟩
  · rintro ⟨rfl, rfl⟩
    rfl

variable {token : Token} {count : Nat}

theorem discard_next_run (h : s.Takes token s') :
    (discard next : Parse Unit) ⟨s, count⟩ = .ok () ⟨s', count⟩ :=
  (discard_next_eq_ok_iff (p := ⟨s, count⟩) h.1).mpr ⟨s', h, rfl⟩

theorem expect_run {m : Mark} (h : s.Takes (.mark m) s') :
    expect m ⟨s, count⟩ = .ok () ⟨s', count⟩ :=
  expect_eq_ok_iff.mpr ⟨s', h, rfl⟩

theorem name_run {x : String} (h : s.Takes (.var x) s') : name ⟨s, count⟩ = .ok x ⟨s', count⟩ :=
  name_eq_ok_iff.mpr ⟨s', h, rfl⟩

theorem newId_run : newId ⟨s, count⟩ = .ok (some (count : Int)) ⟨s, count + 1⟩ := rfl

end Parse

end Contractum
