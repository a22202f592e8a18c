import Mathlib.Control.Monad.Basic
import Contractum.Proofs.Grammar.Completeness
import Contractum.Proofs.Grammar.Items
import Contractum.Proofs.Grammar.Soundness

/-!
# The parser and its grammar

A text is a term exactly when its tokens, up to the end of the text, are derivable from the
loosest tier and their tree is closed; the term is that tree with its binders numbered.
Since the parser has one answer for each text, the grammar has one tree for each list of
tokens.
-/

namespace Contractum

open Parse

namespace Derives

variable {tier : Tier} {ts : List Token} {t u : Term}

/-- No derivable token ends the reading of a text. -/
theorem not_ends (h : Derives tier ts t) : ∀ token ∈ ts, token.ends = false := by
  induction h with
  | letIn _ _ ihv ihb =>
      simp only [List.forall_mem_cons, List.forall_mem_append]
      exact ⟨rfl, rfl, rfl, ihv, rfl, ihb⟩
  | lam _ ih =>
      simp only [List.forall_mem_cons]
      exact ⟨rfl, rfl, rfl, ih⟩
  | sum _ _ _ ihl ihr | prod _ _ _ ihl ihr =>
      simp only [List.forall_mem_cons, List.forall_mem_append]
      exact ⟨ihl, rfl, ihr⟩
  | neg _ ih => exact List.forall_mem_cons.mpr ⟨rfl, ih⟩
  | app _ _ ihf iha => exact List.forall_mem_append.mpr ⟨ihf, iha⟩
  | var | constr | literal => exact List.forall_mem_singleton.mpr rfl
  | parens _ ih =>
      simp only [List.forall_mem_cons, List.forall_mem_append]
      exact ⟨rfl, ih, rfl, List.forall_mem_nil _⟩
  | ofSum _ ih | ofProd _ ih | ofUnary _ ih | ofApp _ ih | ofAtom _ ih => exact ih

end Derives

namespace Parse

theorem stopsAt_finish : Tier.term.StopsAt .finish :=
  ⟨by decide, rfl, rfl⟩

variable {s : Stream} {p q : ParseState} {u : Term}

theorem whole_eq_ok_iff :
    whole p = .ok u q ↔
      term (depthBound p.stream) [] p = .ok u q ∧ q.stream.current.token = .finish := by
  rw [whole, bind_eq_ok_iff]
  constructor
  · rintro ⟨t, r, hterm, hrest⟩
    rw [peek_bind_run] at hrest
    cases hfinish : r.stream.current.token with
    | finish =>
        simp only [hfinish] at hrest
        obtain ⟨rfl, rfl⟩ := pure_eq_ok_iff.mp hrest
        exact ⟨hterm, hfinish⟩
    | mark | var | constr | literal | unknown =>
        simp only [hfinish] at hrest
        exact absurd hrest fail_ne_ok
  · rintro ⟨hterm, hfinish⟩
    refine ⟨u, q, hterm, ?_⟩
    rw [peek_bind_run, hfinish]
    rfl

/-- A whole reading succeeds exactly when the tokens of a closed tree stand before the end of
the text. -/
theorem exists_whole_iff (hended : Ended s.items) :
    (∃ q, whole ⟨s, 0⟩ = .ok u q) ↔
      ∃ (ls : List Located) (last : Located) (t : Term),
        s.items = ls.map .token ++ [.token last] ∧ last.token = .finish ∧
          Derives .term (ls.map (·.token)) t ∧ t.ScopedIn [] ∧ t.numbered = u := by
  constructor
  · rintro ⟨q, hwhole⟩
    obtain ⟨hterm, hfinish⟩ := whole_eq_ok_iff.mp hwhole
    obtain ⟨ts, t, hpass, hderives, hscope, rfl, -⟩ := (sound _).term hterm
    obtain ⟨ls, rfl, hitems, hrest⟩ := Stream.items_of_passes hended hderives.not_ends hpass
    refine ⟨ls, q.stream.current, t, ?_, hfinish, hderives, hscope, rfl⟩
    have hends : (Item.token q.stream.current).ends = true := by rw [Item.ends, hfinish, Token.ends]
    rw [hitems, Stream.items, hrest.eq_nil_of_ends hends]
  · rintro ⟨ls, last, t, hitems, hfinish, hderives, hscope, rfl⟩
    obtain ⟨s', hpass, hs'⟩ := Stream.exists_passes hitems
    have hcurrent : s'.current = last := by
      injection hs' with hcurrent
      injection hcurrent
    have hstop : Tier.term.StopsAt s'.current.token := by
      rw [hcurrent, hfinish]
      exact stopsAt_finish
    have hlength : s.ahead.length = ls.length := by
      have h := congrArg List.length hitems
      simpa [Stream.items] using h
    refine ⟨_, whole_eq_ok_iff.mpr ⟨(readsAll hderives).term_run hpass hscope hstop ?_, ?_⟩⟩
    · rw [List.length_map, depthBound, hlength]
      omega
    · rw [hcurrent, hfinish]

end Parse

/-- A text without a stream begins with a literal of too many digits. -/
theorem Stream.items_of_ofText {text : String} {s : Stream} (h : Stream.ofText text = .ok s) :
    s.items = scan 0 text.toList := by
  rw [Stream.ofText] at h
  split at h
  · cases h
  · next t ahead hscan =>
      cases h
      exact hscan.symm
  · next hscan => exact absurd hscan (ended_scan 0 text.toList).ne_nil

theorem Stream.exists_ofText {text : String} {t : Located} {ahead : List Item}
    (h : scan 0 text.toList = .token t :: ahead) :
    ∃ s, Stream.ofText text = .ok s ∧ s.items = scan 0 text.toList := by
  rw [Stream.ofText]
  rw [h]
  exact ⟨_, rfl, rfl⟩

theorem Term.parse_eq_ok_iff_whole {text : String} {u : Term} :
    Term.parse text = .ok u ↔
      ∃ s, Stream.ofText text = .ok s ∧ ∃ q, Parse.whole ⟨s, 0⟩ = .ok u q := by
  rw [Term.parse]
  constructor
  · intro h
    cases hs : Stream.ofText text with
    | error fault =>
        rw [hs] at h
        cases h
    | ok s =>
        rw [hs] at h
        refine ⟨s, rfl, ?_⟩
        cases hwhole : Parse.whole ⟨s, 0⟩ with
        | error fault q =>
            simp only [hwhole] at h
            cases h
        | ok t q =>
            simp only [hwhole] at h
            cases h
            exact ⟨q, rfl⟩
  · rintro ⟨s, hs, q, hwhole⟩
    simp only [hs, hwhole]

/-- The term of a text is the closed tree of its tokens, numbered. -/
theorem Term.parse_eq_ok_iff {text : String} {u : Term} :
    Term.parse text = .ok u ↔
      ∃ items ts t, Token.ofText text = .ok items ∧ items.map (·.token) = ts ++ [.finish] ∧
        Derives .term ts t ∧ t.ScopedIn [] ∧ t.numbered = u := by
  rw [Term.parse_eq_ok_iff_whole]
  constructor
  · rintro ⟨s, hs, hwhole⟩
    have hitems := Stream.items_of_ofText hs
    obtain ⟨ls, last, t, hls, hfinish, hderives, hscope, hu⟩ :=
      (Parse.exists_whole_iff (hitems ▸ ended_scan 0 text.toList)).mp hwhole
    refine ⟨ls ++ [last], ls.map (·.token), t, ?_, ?_, hderives, hscope, hu⟩
    · rw [Token.ofText_eq_ok_iff, ← hitems, hls, List.map_append, List.map_singleton]
    · rw [List.map_append, List.map_singleton, hfinish]
  · rintro ⟨items, ts, t, hitems, htokens, hderives, hscope, hu⟩
    rw [Token.ofText_eq_ok_iff] at hitems
    obtain ⟨ls, lasts, rfl, rfl, hlast⟩ := List.map_eq_append_iff.mp htokens
    obtain ⟨last, rfl, hfinish⟩ := List.map_eq_singleton_iff.mp hlast
    rw [List.map_append, List.map_singleton] at hitems
    obtain ⟨t₀, ahead, hcons⟩ :
        ∃ t₀ ahead, ls.map Item.token ++ [.token last] = .token t₀ :: ahead := by
      cases ls with
      | nil => exact ⟨last, [], rfl⟩
      | cons l ls => exact ⟨l, _, rfl⟩
    obtain ⟨s, hs, hsitems⟩ := Stream.exists_ofText (hitems.trans hcons)
    exact ⟨s, hs, (Parse.exists_whole_iff (hsitems ▸ ended_scan 0 text.toList)).mpr
      ⟨ls, last, t, hsitems.trans hitems, hfinish, hderives, hscope, hu⟩⟩

/-- A parsed term is the tree of tokens that were read off its text. -/
theorem Term.exists_tree_of_parse {text : String} {u : Term} (h : Term.parse text = .ok u) :
    ∃ ts t, Derives .term ts t ∧ t.numbered = u ∧
      ∀ token ∈ ts, ∃ c cs width, Lexeme.read? c cs = some (.token token, width) := by
  obtain ⟨items, ts, t, hitems, htokens, hderives, -, hu⟩ := Term.parse_eq_ok_iff.mp h
  rw [Token.ofText_eq_ok_iff] at hitems
  refine ⟨ts, t, hderives, hu, ?_⟩
  intro token htoken
  have hmem : token ∈ items.map (·.token) := htokens ▸ List.mem_append_left _ htoken
  obtain ⟨l, hl, rfl⟩ := List.mem_map.mp hmem
  have hscan : .token l ∈ scan 0 text.toList := hitems ▸ List.mem_map_of_mem hl
  exact exists_read_of_mem_scan 0 text.toList hscan (hderives.not_ends _ htoken)

/-- A stream in front of any tokens, which need not be those of a text. -/
theorem Stream.exists_of_tokens (ts : List Token) :
    ∃ s s' : Stream, s.Passes ts s' ∧ s'.current.token = .finish := by
  let place (token : Token) : Located := ⟨token, 0, 0⟩
  obtain ⟨s, hs⟩ : ∃ s : Stream,
      s.items = (ts.map place).map .token ++ [.token (place .finish)] := by
    cases ts with
    | nil => exact ⟨⟨"", place .finish, [], 0⟩, rfl⟩
    | cons token ts =>
        exact ⟨⟨"", place token, (ts.map place).map .token ++ [.token (place .finish)], 0⟩, rfl⟩
  obtain ⟨s', hpass, hs'⟩ := Stream.exists_passes hs
  have htokens : (ts.map place).map (·.token) = ts := by
    rw [List.map_map]
    exact List.map_id ts
  injection hs' with hcurrent
  injection hcurrent with hcurrent
  exact ⟨s, s', htokens ▸ hpass, congrArg Located.token hcurrent⟩

/-- Any names can be in scope. -/
theorem Term.scopedIn_of_names_subset {t : Term} {xs : List String} (h : t.names ⊆ xs) :
    t.ScopedIn (xs.map (·, none)) := by
  intro x hx
  rw [List.lookup_isSome_iff]
  exact ⟨(x, none), List.mem_map_of_mem (h (Term.mem_names_of_isFree hx)), beq_self_eq_true x⟩

/-- A list of tokens has at most one tree, since the parser has one answer on a stream before
these tokens, in a scope of all names of both trees. -/
theorem Derives.unique {tier tier' : Tier} {ts : List Token} {t u : Term}
    (ht : Derives tier ts t) (hu : Derives tier' ts u) : t = u := by
  obtain ⟨s, s', hpass, hfinish⟩ := Stream.exists_of_tokens ts
  have hstop : Tier.term.StopsAt s'.current.token := by
    rw [hfinish]
    exact stopsAt_finish
  let scope : Scope := (t.names ++ u.names).map (·, none)
  let depth := 8 * ts.length + 6
  have htrun : term depth scope ⟨s, 0⟩ = _ := (readsAll ht.loosest).term_run hpass
    (Term.scopedIn_of_names_subset (List.subset_append_left _ _)) hstop (Nat.le_refl _)
  have hurun : term depth scope ⟨s, 0⟩ = _ := (readsAll hu.loosest).term_run hpass
    (Term.scopedIn_of_names_subset (List.subset_append_right _ _)) hstop (Nat.le_refl _)
  injection htrun.symm.trans hurun with hnumbered
  have herased := congrArg Term.eraseIds hnumbered
  rwa [Term.eraseIds_numberFrom, Term.eraseIds_numberFrom, ht.eraseIds, hu.eraseIds] at herased

/-- The parser accepts exactly its grammar: a text is a term, binding numbers aside, when its
tokens in front of the end derive the term and no variable of it is free. The grammar is
unambiguous, also between its tiers. A text with a literal of too many digits has no list of
tokens. -/
theorem Term.parse_iff_derives :
    (∀ (text : String) (t : Term),
      (∃ u, Term.parse text = .ok u ∧ u.eraseIds = t.eraseIds) ↔
        ∃ items ts, Token.ofText text = .ok items ∧ items.map (·.token) = ts ++ [.finish] ∧
          Derives .term ts t.eraseIds ∧ ∀ x, ¬ t.isFree x = true) ∧
      ∀ (tier tier' : Tier) (ts : List Token) (t u : Term),
        Derives tier ts t → Derives tier' ts u → t = u := by
  refine ⟨fun text t => ?_, fun _ _ _ _ _ ht hu => ht.unique hu⟩
  simp only [Term.parse_eq_ok_iff, Term.scopedIn_nil_iff]
  constructor
  · rintro ⟨u, ⟨items, ts, v, hitems, hts, hderives, hclosed, rfl⟩, herase⟩
    rw [Term.numbered, Term.eraseIds_numberFrom, hderives.eraseIds] at herase
    refine ⟨items, ts, hitems, hts, herase ▸ hderives, fun x hx => hclosed x ?_⟩
    rwa [herase, Term.isFree_eraseIds]
  · rintro ⟨items, ts, hitems, hts, hderives, hclosed⟩
    refine ⟨_, ⟨items, ts, t.eraseIds, hitems, hts, hderives, fun x hx => hclosed x ?_, rfl⟩, ?_⟩
    · rwa [Term.isFree_eraseIds] at hx
    · rw [Term.numbered, Term.eraseIds_numberFrom, Term.eraseIds_eraseIds]

/-- Differences group to the left, and their tree is the only one of their tokens. -/
theorem Term.parse_differences :
    (∃ u, Term.parse "1 - 2 - 3" = .ok u ∧
      u.eraseIds = .arith .sub (.arith .sub (.lit 1) (.lit 2)) (.lit 3)) ∧
    ∀ t, Derives .term [.literal 1, .mark .minus, .literal 2, .mark .minus, .literal 3] t →
      t = .arith .sub (.arith .sub (.lit 1) (.lit 2)) (.lit 3) := by
  have operand (n : Nat) : Derives .prod [.literal n] (.lit n) :=
    .ofUnary (.ofApp (.ofAtom (.literal n)))
  have hleft : Derives .sum ([.literal 1] ++ .mark Op.sub.mark :: [.literal 2])
      (.arith .sub (.lit 1) (.lit 2)) := .sum rfl (.ofProd (operand 1)) (operand 2)
  have hboth : Derives .sum ([.literal 1, .mark .minus, .literal 2] ++
      .mark Op.sub.mark :: [.literal 3]) (.arith .sub (.arith .sub (.lit 1) (.lit 2)) (.lit 3)) :=
    .sum rfl hleft (operand 3)
  have hderives : Derives .term [.literal 1, .mark .minus, .literal 2, .mark .minus, .literal 3]
      (.arith .sub (.arith .sub (.lit 1) (.lit 2)) (.lit 3)) := .ofSum hboth
  have htokens : Token.ofText "1 - 2 - 3" = .ok
      [⟨.literal 1, 0, 1⟩, ⟨.mark .minus, 2, 3⟩, ⟨.literal 2, 4, 5⟩, ⟨.mark .minus, 6, 7⟩,
        ⟨.literal 3, 8, 9⟩, ⟨.finish, 9, 9⟩] := by
    decide +kernel
  let t : Term := .arith .sub (.arith .sub (.lit 1) (.lit 2)) (.lit 3)
  have hparse := (Term.parse_iff_derives.1 "1 - 2 - 3" t).mpr
    ⟨_, _, htokens, rfl, hderives, fun _ => Bool.false_ne_true⟩
  exact ⟨hparse, fun u hu => Term.parse_iff_derives.2 _ _ _ u t hu hderives⟩

end Contractum
