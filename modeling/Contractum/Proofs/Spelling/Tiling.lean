import Mathlib.Data.List.Forall2
import Contractum.Proofs.Grammar.FirstError
import Contractum.Proofs.Spelling.Spells
import Contractum.Proofs.Spelling.Words

/-!
# Texts tiled by tokens

The tokens of a text stand one behind the other with nothing but gaps between them. Each is the
longest word of its rule at its place, and they go on to the end of the text or to the first
character that begins no word. This describes the tokens completely: a text has one such list,
and it is what a stream hands out, unless a literal in it has too many digits.
-/

namespace Contractum

open Text

/-- Whether only gaps stand in a text from one place to before another. -/
def Blank (text : List Char) (start stop : Nat) : Prop :=
  ∀ k c, start ≤ k → k < stop → text[k]? = some c → isGap c = true

/-- Whether tokens are what stands in a text from a place on. -/
inductive Tiles (text : List Char) : Nat → List Located → Prop
  /-- The end of the text behind gaps. -/
  | finish {pos : Nat} (blank : Blank text pos text.length) :
      Tiles text pos [⟨.finish, text.length, text.length⟩]
  /-- Behind gaps, a character that is no gap and begins no word. -/
  | unknown {pos start : Nat} {c : Char} (order : pos ≤ start) (blank : Blank text pos start)
      (there : text[start]? = some c) (noGap : isGap c = false)
      (opensNothing : ∀ (rule : Rule) (ds : List Char), ¬ rule.Allows (c :: ds)) :
      Tiles text pos [⟨.unknown c, start, start + 1⟩]
  /-- Behind gaps, the longest word of a rule, and more tokens behind it. -/
  | token {pos start : Nat} {rule : Rule} {word : List Char} {t : Token} {ls : List Located}
      (order : pos ≤ start) (blank : Blank text pos start)
      (longest : rule.Longest (text.drop start) word) (said : rule.Says word t)
      (behind : Tiles text (start + word.length) ls) :
      Tiles text pos (⟨t, start, start + word.length⟩ :: ls)

/-- Whether a token is no literal of too many digits. -/
def Located.WithinLimit (l : Located) : Prop :=
  ∀ n, l.token = .literal n → l.stop - l.start ≤ digitLimit

/-- What is read where a token stands: the token itself, unless it is a literal of too many
digits. -/
inductive Item.Shows : Item → Located → Prop
  | token {l : Located} (within : l.WithinLimit) : Shows (.token l) l
  | tooLong {n start stop : Nat} (long : digitLimit < stop - start) :
      Shows (.tooLong (stop - start) stop) ⟨.literal n, start, stop⟩

variable {text word : List Char} {pos start stop : Nat} {rule : Rule} {c : Char} {t : Token}
variable {ls : List Located}

theorem Rule.isGap_of_opens (h : rule.opens c = true) : isGap c = false :=
  isGap_eq_false (by cases rule <;> rfl) (by cases rule <;> rfl) (by cases rule <;> rfl) h

theorem Rule.Longest.length_pos (h : rule.Longest text word) : 0 < word.length :=
  List.length_pos_iff.mpr h.allowed.ne_nil

/-- The first character of a longest word stands at its place. -/
theorem Rule.Longest.exists_char (h : rule.Longest (text.drop start) word) :
    ∃ c ds, word = c :: ds ∧ text[start]? = some c ∧ rule.opens c = true := by
  obtain ⟨c, ds, rfl, hopens⟩ := h.allowed.exists_cons
  obtain ⟨rest, hrest⟩ := h.front
  have hhead : (text.drop start).head? = some c := by
    rw [← hrest]
    rfl
  rw [List.head?_drop] at hhead
  exact ⟨c, ds, rfl, hhead, hopens⟩

theorem Rule.Longest.stop_le (h : rule.Longest (text.drop start) word) :
    start + word.length ≤ text.length := by
  have hle := h.front.length_le
  have hpos := h.length_pos
  rw [List.length_drop] at hle
  omega

/-- Behind the same place, gaps go on to the same character that is none. -/
theorem Blank.start_unique {start' : Nat} {c' : Char} (h : Blank text pos start)
    (h' : Blank text pos start') (horder : pos ≤ start) (horder' : pos ≤ start')
    (hc : text[start]? = some c) (hc' : text[start']? = some c') (hgap : isGap c = false)
    (hgap' : isGap c' = false) : start = start' := by
  rcases Nat.lt_trichotomy start start' with hlt | heq | hlt
  · exact absurd (h' start c horder hlt hc) (by simp [hgap])
  · exact heq
  · exact absurd (h start' c' horder' hlt hc') (by simp [hgap'])

theorem Blank.not_char (h : Blank text pos text.length) (horder : pos ≤ start)
    (hc : text[start]? = some c) (hgap : isGap c = false) : False := by
  obtain ⟨hlt, -⟩ := List.getElem?_eq_some_iff.mp hc
  exact absurd (h start c horder hlt hc) (by simp [hgap])

/-- A text has at most one list of tokens that tile it. -/
theorem Tiles.unique {ls' : List Located} (h : Tiles text pos ls) (h' : Tiles text pos ls') :
    ls = ls' := by
  induction h generalizing ls' with
  | finish blank =>
      cases h' with
      | finish => rfl
      | unknown order _ there noGap => exact (blank.not_char order there noGap).elim
      | token order _ longest =>
          obtain ⟨c, ds, -, hc, hopens⟩ := longest.exists_char
          exact (blank.not_char order hc (Rule.isGap_of_opens hopens)).elim
  | unknown order blank there noGap opensNothing =>
      cases h' with
      | finish blank' => exact (blank'.not_char order there noGap).elim
      | unknown order' blank' there' noGap' =>
          obtain rfl := blank.start_unique blank' order order' there there' noGap noGap'
          cases there.symm.trans there'
          rfl
      | token order' blank' longest =>
          obtain ⟨c, ds, rfl, hc, hopens⟩ := longest.exists_char
          obtain rfl := blank.start_unique blank' order order' there hc noGap
            (Rule.isGap_of_opens hopens)
          cases there.symm.trans hc
          exact absurd longest.allowed (opensNothing _ _)
  | token order blank longest said behind ih =>
      obtain ⟨c, ds, rfl, hc, hopens⟩ := longest.exists_char
      have hgap := Rule.isGap_of_opens hopens
      cases h' with
      | finish blank' => exact (blank'.not_char order hc hgap).elim
      | unknown order' blank' there' noGap' opensNothing =>
          obtain rfl := blank.start_unique blank' order order' hc there' hgap noGap'
          cases hc.symm.trans there'
          exact absurd longest.allowed (opensNothing _ _)
      | token order' blank' longest' said' behind' =>
          obtain ⟨c', ds', rfl, hc', hopens'⟩ := longest'.exists_char
          obtain rfl := blank.start_unique blank' order order' hc hc' hgap
            (Rule.isGap_of_opens hopens')
          cases hc.symm.trans hc'
          obtain rfl := Rule.eq_of_opens hopens hopens'
          cases longest.unique longest'
          obtain rfl := said.unique said'
          rw [ih behind']

/-- Tokens cover characters of the text, all but the end one at least. -/
theorem Tiles.range (h : Tiles text pos ls) :
    ∀ l ∈ ls, l.stop ≤ text.length ∧ (l.token ≠ .finish → l.start < l.stop) := by
  induction h with
  | finish => exact List.forall_mem_singleton.mpr ⟨Nat.le_refl _, fun h => absurd rfl h⟩
  | unknown _ _ there =>
      obtain ⟨hlt, -⟩ := List.getElem?_eq_some_iff.mp there
      exact List.forall_mem_singleton.mpr ⟨hlt, fun _ => Nat.lt_succ_self _⟩
  | token _ _ longest _ _ ih =>
      exact List.forall_mem_cons.mpr
        ⟨⟨longest.stop_le, fun _ => Nat.lt_add_of_pos_right longest.length_pos⟩, ih⟩

/-- The end stands behind the last character, and what is no token is a single one. -/
theorem Tiles.places (h : Tiles text pos ls) :
    ∀ l ∈ ls, (l.token = .finish → l.start = text.length ∧ l.stop = text.length) ∧
      ∀ c, l.token = .unknown c → l.stop = l.start + 1 := by
  induction h with
  | finish =>
      refine List.forall_mem_singleton.mpr ⟨fun _ => ⟨rfl, rfl⟩, ?_⟩
      rintro c ⟨⟩
  | unknown =>
      refine List.forall_mem_singleton.mpr ⟨?_, fun _ _ => rfl⟩
      rintro ⟨⟩
  | token _ _ _ said _ ih =>
      refine List.forall_mem_cons.mpr ⟨⟨?_, ?_⟩, ih⟩
      · rintro rfl
        cases said
      · rintro c rfl
        cases said

/-- A text of no more characters than a literal may have digits has no literal of too many. -/
theorem Tiles.withinLimit (h : Tiles text pos ls) (hlength : text.length ≤ digitLimit) :
    ∀ l ∈ ls, l.WithinLimit := by
  intro l hl n _
  have hstop := (h.range l hl).1
  omega

section Scanning

variable {cs rest : List Char}

/-- The gaps in front of a place, and what stands behind them. -/
theorem blank_gaps (text : List Char) (pos : Nat) :
    Blank text pos (pos + ((text.drop pos).takeWhile isGap).length) := by
  intro k c hpos hk hc
  have hdrop : (text.drop pos)[k - pos]? = some c := by
    rw [List.getElem?_drop, Nat.add_sub_cancel' hpos]
    exact hc
  rw [← List.takeWhile_append_dropWhile (p := isGap) (l := text.drop pos),
    List.getElem?_append_left (by omega)] at hdrop
  exact List.mem_takeWhile_imp (List.mem_of_getElem? hdrop)

theorem drop_gaps (text : List Char) (pos : Nat) :
    text.drop (pos + ((text.drop pos).takeWhile isGap).length) =
      (text.drop pos).dropWhile isGap := by
  rw [← List.drop_drop]
  generalize text.drop pos = cs
  calc cs.drop (cs.takeWhile isGap).length
      = (cs.takeWhile isGap ++ cs.dropWhile isGap).drop (cs.takeWhile isGap).length := by
        rw [List.takeWhile_append_dropWhile]
    _ = cs.dropWhile isGap := List.drop_left

/-- Behind the gaps at a place stands a character that is none. -/
theorem exists_char_of_dropWhile (h : (text.drop pos).dropWhile isGap = c :: rest) :
    let start := pos + ((text.drop pos).takeWhile isGap).length
    text.drop start = c :: rest ∧ text[start]? = some c ∧ isGap c = false := by
  intro start
  have hdrop : text.drop start = c :: rest := (drop_gaps text pos).trans h
  refine ⟨hdrop, ?_, ?_⟩
  · rw [← List.head?_drop, hdrop]
    rfl
  · apply stopped_dropWhile isGap (text.drop pos)
    rw [h]
    rfl

/-- Every text is tiled by tokens, and these are what is read off it. -/
theorem exists_tiles_shown (text : List Char) (pos : Nat) (hpos : pos ≤ text.length) :
    ∃ ls, Tiles text pos ls ∧ List.Forall₂ Item.Shows (scan pos (text.drop pos)) ls := by
  generalize hcs : text.drop pos = cs
  induction pos, cs using scan.induct with
  | case1 pos cs hnil =>
      subst hcs
      have hall : (text.drop pos).takeWhile isGap = text.drop pos := by
        have hsplit := List.takeWhile_append_dropWhile (p := isGap) (l := text.drop pos)
        rwa [hnil, List.append_nil] at hsplit
      have hend : pos + ((text.drop pos).takeWhile isGap).length = text.length := by
        rw [hall, List.length_drop]
        omega
      refine ⟨_, .finish (hend ▸ blank_gaps text pos), ?_⟩
      rw [scan_of_blank hnil, hend]
      exact .cons (.token (by rintro n ⟨⟩)) .nil
  | case2 pos cs c rest hcons hread =>
      subst hcs
      obtain ⟨-, hchar, hgap⟩ := exists_char_of_dropWhile hcons
      refine ⟨_, .unknown (Nat.le_add_right _ _) (blank_gaps text pos) hchar hgap
        (Lexeme.not_allows_of_read hread), ?_⟩
      rw [scan_of_unknown hcons hread]
      exact .cons (.token (by rintro n ⟨⟩)) .nil
  | case3 pos cs start c rest hcons lexeme width hread stop ih =>
      subst hcs
      obtain ⟨hdrop, -, -⟩ := exists_char_of_dropWhile hcons
      obtain ⟨rule, ds, t, hlongest, rfl, hsaid, htells⟩ := Lexeme.exists_longest_of_read hread
      rw [← hdrop] at hlongest
      have hstop : start + (c :: ds).length = stop := by
        rw [List.length_cons]
        omega
      have hrest : text.drop stop = rest.drop ds.length := by
        rw [← hstop, ← List.drop_drop, hdrop, List.length_cons, List.drop_succ_cons]
      obtain ⟨ls, htiles, hshown⟩ := ih (hstop ▸ hlongest.stop_le) hrest
      refine ⟨_, .token (Nat.le_add_right _ _) (blank_gaps text pos) hlongest hsaid
        (hstop.symm ▸ htiles), ?_⟩
      rw [scan_of_read hcons hread, hstop]
      refine .cons ?_ hshown
      have hlength : stop - start = ds.length + 1 := by
        omega
      rw [← hlength] at htells
      cases htells with
      | token short => exact .token short
      | tooLong long => exact .tooLong long

/-- Tokens of which no literal has too many digits are read as they are. -/
theorem eq_map_of_shown {items : List Item} (h : List.Forall₂ Item.Shows items ls)
    (hlimit : ∀ l ∈ ls, l.WithinLimit) : items = ls.map .token := by
  induction h with
  | nil => rfl
  | cons hfirst _ ih =>
      obtain ⟨hwithin, hlater⟩ := List.forall_mem_cons.mp hlimit
      rw [ih hlater, List.map_cons]
      cases hfirst with
      | token => rfl
      | tooLong long => exact absurd (hwithin _ rfl) (Nat.not_le_of_lt long)

/-- The tokens that are read in front of a literal of too many digits stand first in the text. -/
theorem located_prefix_of_shown {items : List Item} (h : List.Forall₂ Item.Shows items ls) :
    located items <+: ls := by
  induction h with
  | nil => exact List.nil_prefix
  | cons hfirst _ ih =>
      cases hfirst with
      | token => exact List.cons_prefix_cons.mpr ⟨rfl, ih⟩
      | tooLong => exact List.nil_prefix

/-- Every text is tiled by tokens, and these are its items if no literal has too many digits. -/
theorem exists_tiles (text : List Char) (pos : Nat) (hpos : pos ≤ text.length) :
    ∃ ls, Tiles text pos ls ∧
      ((∀ l ∈ ls, l.WithinLimit) → scan pos (text.drop pos) = ls.map .token) := by
  obtain ⟨ls, htiles, hshown⟩ := exists_tiles_shown text pos hpos
  exact ⟨ls, htiles, eq_map_of_shown hshown⟩

end Scanning

namespace Stream

variable {s : Stream}

/-- A stream hands out the tokens that it stands in front of, if it may hand out that many. -/
theorem exists_take {count : Nat} (hended : Ended s.items) (h : s.items = ls.map .token)
    (hcount : ls.length ≤ count) : ∃ s', take count s = .ok ls s' := by
  induction ls generalizing s count with
  | nil => cases h
  | cons l ls ih =>
      obtain ⟨count, rfl⟩ := Nat.exists_eq_add_one_of_ne_zero (Nat.ne_zero_of_lt hcount)
      injection h with hcurrent hahead
      injection hcurrent with hcurrent
      cases ls with
      | nil =>
          have hnext : next s = .ok l s := by rw [next, hahead, hcurrent]; rfl
          have hends : l.token.ends = true := by
            rw [Stream.items, hahead, hcurrent] at hended
            cases hended with
            | last ends => exact ends
            | cons _ rest => cases rest
          refine ⟨s, ?_⟩
          rw [take, bind_of_ok hnext]
          cases htoken : l.token with
          | finish | unknown => rfl
          | mark | var | constr | literal =>
              rw [htoken] at hends
              cases hends
      | cons u ls =>
          let behind : Stream := { s with current := u, ahead := ls.map .token, pos := u.readTo }
          have hnext : next s = .ok l behind := by rw [next, hahead, hcurrent]; rfl
          rw [Stream.items, hahead, hcurrent] at hended
          have hgoes : l.token.ends = false := by
            cases hended with
            | cons goesOn => exact goesOn
          have hrest : Ended behind.items := hended.tail hgoes
          obtain ⟨s', htake⟩ := ih hrest rfl (Nat.le_of_succ_le_succ hcount)
          refine ⟨s', ?_⟩
          rw [take, bind_of_ok hnext]
          cases htoken : l.token with
          | finish | unknown =>
              rw [htoken] at hgoes
              cases hgoes
          | mark | var | constr | literal => exact bind_of_ok htake

theorem exists_drain (hended : Ended s.items) (h : s.items = ls.map .token) :
    ∃ s', s.drain = .ok ls s' := by
  have hlength : ls.length = s.ahead.length + 1 := by
    rw [← List.length_map (f := Item.token), ← h]
    rfl
  obtain ⟨s', htake⟩ := exists_take hended h (Nat.le_of_eq hlength)
  exact ⟨s', htake⟩

/-- The tokens of a text tile it: they stand one behind the other with nothing but gaps between
them, each the longest word of its rule at its place, up to the end of the text or the first
character that begins no word. There is one such list of tokens, and all of them but the end cover
some characters. If no literal among them has too many digits, then a stream in front of the text
hands out just these. -/
theorem exists_drain_tiles (text : String) :
    ∃ ls, Tiles text.toList 0 ls ∧ (∀ ls', Tiles text.toList 0 ls' → ls' = ls) ∧
      (∀ l ∈ ls, l.token ≠ .finish → l.start < l.stop) ∧
      ((∀ l ∈ ls, l.WithinLimit) →
        ∃ s s', Stream.ofText text = .ok s ∧ s.drain = .ok ls s' ∧ Token.ofText text = .ok ls) := by
  obtain ⟨ls, htiles, hscan⟩ := exists_tiles text.toList 0 (Nat.zero_le _)
  refine ⟨ls, htiles, fun ls' h => h.unique htiles, fun l hl => (htiles.range l hl).2, ?_⟩
  intro hlimit
  have htokens : Token.ofText text = .ok ls := Token.ofText_eq_ok_iff.mpr (hscan hlimit)
  obtain ⟨s, hs, hitems⟩ := Stream.exists_of_tokens_of_text htokens
  have hended : Ended s.items := items_of_ofText hs ▸ ended_scan 0 text.toList
  obtain ⟨s', hdrain⟩ := exists_drain hended hitems
  exact ⟨s, s', hs, hdrain, htokens⟩

/-- A prime makes a name of the keyword that it follows, as digits do, and digits in front of a name
are none of it. -/
theorem exists_drain_tiles_glued :
    let tokens : List Located :=
      [⟨.var "let'", 0, 4⟩, ⟨.mark .arrow, 4, 6⟩, ⟨.mark .minus, 6, 7⟩, ⟨.literal 12, 7, 9⟩,
        ⟨.var "x", 9, 10⟩, ⟨.var "in2", 11, 14⟩, ⟨.mark .inWord, 15, 17⟩, ⟨.unknown '#', 17, 18⟩]
    (∀ l ∈ tokens, l.WithinLimit) ∧ Tiles "let'->-12x\tin2 in#".toList 0 tokens ∧
      ∃ s s', Stream.ofText "let'->-12x\tin2 in#" = .ok s ∧ s.drain = .ok tokens s' := by
  intro tokens
  obtain ⟨ls, htiles, -, -, hdrain⟩ := exists_drain_tiles "let'->-12x\tin2 in#"
  have hread : Token.ofText "let'->-12x\tin2 in#" = .ok tokens := by decide +kernel
  have hlimit : ∀ l ∈ ls, l.WithinLimit := htiles.withinLimit (by decide +kernel)
  obtain ⟨s, s', hs, hrun, htokens⟩ := hdrain hlimit
  cases htokens.symm.trans hread
  exact ⟨hlimit, htiles, s, s', hs, hrun⟩

end Stream

end Contractum
