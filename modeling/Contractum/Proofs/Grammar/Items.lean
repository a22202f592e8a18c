import Contractum.Proofs.Grammar.Taking

/-!
# The items in front of a stream

A stream stands before the rest of its text's items. It passes over tokens exactly when
these items begin with them: a literal of too many digits cannot be passed, and neither can
the last item, with which every text ends.
-/

namespace Contractum

/-- Whether the reading of a text ends with a token. -/
def Token.ends : Token → Bool
  | .finish | .unknown _ => true
  | _ => false

/-- Whether the reading of a text ends with an item. -/
def Item.ends : Item → Bool
  | .token t => t.token.ends
  | .tooLong _ _ => false

/-- An item that ends the reading stands last, and none before it. -/
inductive Ended : List Item → Prop
  | last {item : Item} (ends : item.ends = true) : Ended [item]
  | cons {item : Item} {items : List Item} (goesOn : item.ends = false) (rest : Ended items) :
      Ended (item :: items)

theorem Ended.tail {item : Item} {items : List Item} (h : Ended (item :: items))
    (hitem : item.ends = false) : Ended items := by
  cases h with
  | last ends => cases hitem.symm.trans ends
  | cons _ rest => exact rest

theorem Ended.eq_nil_of_ends {item : Item} {items : List Item} (h : Ended (item :: items))
    (hitem : item.ends = true) : items = [] := by
  cases h with
  | last _ => rfl
  | cons goesOn _ => cases hitem.symm.trans goesOn

theorem Ended.ne_nil {items : List Item} (h : Ended items) : items ≠ [] := by
  cases h <;> exact List.cons_ne_nil _ _

/-- A character that opens a lexeme does not end the reading. -/
theorem Lexeme.ends_at {c : Char} {cs : List Char} {lexeme : Lexeme} {width start stop : Nat}
    (h : Lexeme.read? c cs = some (lexeme, width)) : (lexeme.at start stop).ends = false := by
  cases opens_of_read h with
  | arrow | mark | upper => rfl
  | digit =>
      rw [ofDigits]
      split <;> rfl
  | lower =>
      rw [ofWord]
      split <;> rfl

theorem ended_scan (pos : Nat) (cs : List Char) : Ended (scan pos cs) := by
  induction pos, cs using scan.induct with
  | case1 pos cs hblank =>
      rw [scan_of_blank hblank]
      exact .last rfl
  | case2 pos cs c rest hcs hread =>
      rw [scan_of_unknown hcs hread]
      exact .last rfl
  | case3 pos cs start c rest hcs lexeme width hread stop ih =>
      rw [scan_of_read hcs hread]
      exact .cons (Lexeme.ends_at hread) ih

/-- A token that does not end its text was read off it. -/
theorem exists_read_of_mem_scan (pos : Nat) (cs : List Char) {t : Located}
    (h : .token t ∈ scan pos cs) (hgoes : t.token.ends = false) :
    ∃ c cs' width, Lexeme.read? c cs' = some (.token t.token, width) := by
  induction pos, cs using scan.induct with
  | case1 pos cs hblank =>
      rw [scan_of_blank hblank, List.mem_singleton] at h
      cases h
      contradiction
  | case2 pos cs c rest hcs hread =>
      rw [scan_of_unknown hcs hread, List.mem_singleton] at h
      cases h
      contradiction
  | case3 pos cs start c rest hcs lexeme width hread stop ih =>
      rw [scan_of_read hcs hread] at h
      obtain hfirst | hrest := List.mem_cons.mp h
      · cases lexeme with
        | token token =>
            cases hfirst
            exact ⟨c, rest, width, hread⟩
        | tooLong => cases hfirst
      · exact ih hrest

namespace Stream

/-- What the stream has not consumed yet, the current token included. -/
def items (s : Stream) : List Item :=
  .token s.current :: s.ahead

variable {s s' : Stream} {token : Token} {t : Located} {ts : List Token} {ls : List Located}
variable {items : List Item}

/-- A token is taken when another one stands behind it. -/
theorem exists_takes {u : Located} (h : s.items = .token t :: .token u :: items) :
    ∃ s', s.Takes t.token s' ∧ s'.items = .token u :: items := by
  injection h with hcurrent hahead
  injection hcurrent with hcurrent
  refine ⟨{ s with current := u, ahead := items, pos := u.readTo }, ⟨?_, ?_⟩, rfl⟩
  · rw [hcurrent]
  · rw [next, hahead]

/-- Tokens are passed when another one stands behind them. -/
theorem exists_passes (h : s.items = ls.map .token ++ .token t :: items) :
    ∃ s', s.Passes (ls.map (·.token)) s' ∧ s'.items = .token t :: items := by
  induction ls generalizing s with
  | nil => exact ⟨s, .refl s, h⟩
  | cons l ls ih =>
      obtain ⟨u, rest, hrest⟩ : ∃ u rest, ls.map Item.token ++ .token t :: items =
          .token u :: rest := by
        cases ls with
        | nil => exact ⟨t, items, rfl⟩
        | cons u ls => exact ⟨u, _, rfl⟩
      rw [List.map_cons, List.cons_append, hrest] at h
      obtain ⟨s₁, hfirst, hs₁⟩ := exists_takes h
      obtain ⟨s₂, hpass, hs₂⟩ := ih (hs₁.trans hrest.symm)
      exact ⟨s₂, .step hfirst hpass, hs₂⟩

/-- A taken token stood in front, unless the reading ended with it. -/
theorem items_of_takes (hended : Ended s.items) (htoken : token.ends = false)
    (h : s.Takes token s') :
    s.current.token = token ∧ s.items = .token s.current :: s'.items ∧ Ended s'.items := by
  obtain ⟨hcurrent, hnext⟩ := h
  refine ⟨hcurrent, ?_⟩
  rw [← hcurrent] at htoken
  have hahead := hended.tail htoken
  rw [next] at hnext
  split at hnext
  · next hnil => exact absurd hnil hahead.ne_nil
  · next u ahead hcons =>
      cases hnext
      rw [items, items, ← hcons]
      exact ⟨rfl, hahead⟩
  · cases hnext

/-- Passed tokens stood in front, unless the reading ended with one of them. -/
theorem items_of_passes (hended : Ended s.items) (hts : ∀ token ∈ ts, token.ends = false)
    (h : s.Passes ts s') :
    ∃ ls : List Located, ls.map (·.token) = ts ∧ s.items = ls.map .token ++ s'.items ∧
      Ended s'.items := by
  induction h with
  | refl s => exact ⟨[], rfl, rfl, hended⟩
  | @step s s₁ s₂ token tokens first rest ih =>
      obtain ⟨hcurrent, hitems, hs₁⟩ := items_of_takes hended (hts token List.mem_cons_self) first
      obtain ⟨ls, hls, hrest, hs₂⟩ := ih hs₁ fun u hu => hts u (List.mem_cons_of_mem token hu)
      refine ⟨s.current :: ls, ?_, ?_, hs₂⟩
      · rw [List.map_cons, hcurrent, hls]
      · rw [hitems, hrest]
        rfl

end Stream

/-- The tokens of a text are its items, when none of these is a literal of too many digits. -/
theorem Token.ofText_eq_ok_iff {text : String} {ls : List Located} :
    Token.ofText text = .ok ls ↔ scan 0 text.toList = ls.map .token := by
  rw [Token.ofText]
  generalize scan 0 text.toList = items
  induction items generalizing ls with
  | nil => simp [pure, Except.pure, eq_comm]
  | cons item items ih =>
      cases item with
      | tooLong digits stop => cases ls <;> simp [List.mapM_cons, bind, Except.bind]
      | token t =>
          simp only [List.mapM_cons, bind, Except.bind]
          split
          · next fault hrest =>
              simp only [hrest] at ih
              cases ls with
              | nil => simp
              | cons l ls => simp [← ih]
          · next ts hrest =>
              simp only [hrest] at ih
              cases ls with
              | nil => simp [pure, Except.pure]
              | cons l ls => simp [← ih, pure, Except.pure]

end Contractum
