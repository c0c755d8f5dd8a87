import Concordance.Proofs.Maintenance
import Concordance.Proofs.Phrases
import Mathlib.Data.List.Chain

/-! # Phrases stay within a text

The texts of a value leave a gap between them, and so do the sources of an index that has one
section for all. A query whose tokens follow one another directly cannot cross such a gap, so that
its places are counted text by text.
-/
namespace Concordance

abbrev Adjacent (tokens : List Token) : Prop :=
  tokens.IsChain fun a b => b.position = a.position + 1

/-- Whether tokens stand one after another from a position on. -/
def standRun (mode : SearchMode) (held : List (String × Nat)) : List Token → Nat → Bool
  | [], _ => true
  | token :: rest, position =>
    token.standsAt mode held position && standRun mode held rest (position + 1)

section Blocks
variable {mode : SearchMode} {tokens : List Token} {held front back : List (String × Nat)}

theorem all_standsAt_eq {base k : Nat} {before : Token} {rest : List Token}
    (hbefore : before.position = base + k) (h : Adjacent (before :: rest)) (start : Nat) :
    (rest.all fun token => token.standsAt mode held (start + (token.position - base))) =
      standRun mode held rest (start + k + 1) := by
  induction rest generalizing before k with
  | nil => rfl
  | cons token rest ih =>
    obtain ⟨hstep, hrest⟩ := List.isChain_cons_cons.1 h
    have hposition : token.position = base + (k + 1) := by omega
    have hoffset : token.position - base = k + 1 := by omega
    rw [List.all_cons, ih hposition hrest, hoffset]
    rfl

/-- Tokens that follow one another directly are looked for one after another. -/
theorem phraseCount_of_adjacent {first : Token} {rest : List Token}
    (h : Adjacent (first :: rest)) :
    phraseCount mode (first :: rest) held =
      held.countP fun o => first.selects mode o.1 && standRun mode held rest (o.2 + 1) := by
  rw [phraseCount]
  refine List.countP_congr fun o _ => ?_
  rw [all_standsAt_eq (Nat.add_zero _).symm h, Nat.add_zero]

theorem standsAt_eq_false {token : Token} {position : Nat} (h : ∀ o ∈ held, o.2 ≠ position) :
    token.standsAt mode held position = false := by
  rw [Bool.eq_false_iff]
  intro hstands
  obtain ⟨o, ho, -, hposition⟩ := Token.standsAt_iff.1 hstands
  exact h o ho hposition

/-- A run that starts next to an occurrence of a block stays in the block, if nothing else stands
next to one. -/
theorem standRun_block {block : List (String × Nat)}
    (hnext : ∀ (token : Token), ∀ o ∈ block,
      token.standsAt mode held (o.2 + 1) = token.standsAt mode block (o.2 + 1))
    {o : String × Nat} (ho : o ∈ block) (tokens : List Token) :
    standRun mode held tokens (o.2 + 1) = standRun mode block tokens (o.2 + 1) := by
  induction tokens generalizing o with
  | nil => rfl
  | cons token rest ih =>
    rw [standRun, standRun, hnext token o ho]
    cases hstands : token.standsAt mode block (o.2 + 1) with
    | false => rfl
    | true =>
      obtain ⟨next, hmem, -, hposition⟩ := Token.standsAt_iff.1 hstands
      rw [← hposition, ih hmem]

/-- Blocks with a gap between them have the places that each has. -/
theorem phraseCount_append (h : Adjacent tokens)
    (hgap : ∀ a ∈ front, ∀ b ∈ back, a.2 + 1 < b.2) :
    phraseCount mode tokens (front ++ back) =
      phraseCount mode tokens front + phraseCount mode tokens back := by
  cases tokens with
  | nil => rfl
  | cons first rest =>
    rw [phraseCount_of_adjacent h, phraseCount_of_adjacent h, phraseCount_of_adjacent h,
      List.countP_append]
    have hfront (token : Token) : ∀ a ∈ front,
        token.standsAt mode (front ++ back) (a.2 + 1) = token.standsAt mode front (a.2 + 1) := by
      intro a ha
      have hnone : ∀ b ∈ back, b.2 ≠ a.2 + 1 := fun b hb => Nat.ne_of_gt (hgap a ha b hb)
      rw [Token.standsAt_append, standsAt_eq_false hnone, Bool.or_false]
    have hback (token : Token) : ∀ b ∈ back,
        token.standsAt mode (front ++ back) (b.2 + 1) = token.standsAt mode back (b.2 + 1) := by
      intro b hb
      have hnone : ∀ a ∈ front, a.2 ≠ b.2 + 1 := by
        intro a ha
        have := hgap a ha b hb
        omega
      rw [Token.standsAt_append, standsAt_eq_false hnone, Bool.false_or]
    congr 1
    · exact List.countP_congr fun a ha => by rw [standRun_block hfront ha]
    · exact List.countP_congr fun b hb => by rw [standRun_block hback hb]

/-- Where the positions start makes no difference. -/
theorem phraseCount_shift (k : Nat) :
    phraseCount mode tokens (held.map fun o => (o.1, k + o.2)) =
      phraseCount mode tokens held := by
  have hstands : ∀ (token : Token) (q : Nat),
      token.standsAt mode (held.map fun o => (o.1, k + o.2)) (k + q) =
        token.standsAt mode held q := by
    intro token q
    rw [Token.standsAt, List.any_map]
    refine List.any_congr rfl fun o => ?_
    simp
  cases tokens with
  | nil => rfl
  | cons first rest =>
    rw [phraseCount, phraseCount, List.countP_map]
    refine List.countP_congr fun o _ => ?_
    simp only [Function.comp, Nat.add_assoc, hstands]

end Blocks

/-! ## The texts of a value -/

def textTerms (tokenizer : Tokenizer) (text : String) : List (String × Nat) :=
  (tokenizer.tokens .add text).map fun t => (t.text, t.position)

theorem standsAt_textTerms {mode : SearchMode} {token : Token} {tokenizer : Tokenizer}
    {item : String} {position : Nat} : token.standsAt mode (textTerms tokenizer item) position ↔
      ∃ t ∈ tokenizer.tokens .add item, token.selects mode t.text ∧ t.position = position := by
  simp [Token.standsAt, textTerms]

theorem le_foldl_max (tokens : List Token) (last : Nat) :
    last ≤ tokens.foldl (fun last t => max last t.position) last ∧
      ∀ t ∈ tokens, t.position ≤ tokens.foldl (fun last t => max last t.position) last := by
  induction tokens generalizing last with
  | nil => simp
  | cons token rest ih =>
    obtain ⟨hlast, hrest⟩ := ih (max last token.position)
    rw [List.foldl_cons]
    refine ⟨by omega, fun t ht => ?_⟩
    rcases List.mem_cons.1 ht with rfl | ht
    · omega
    · exact hrest t ht

theorem le_of_mem_spread {tokenizer : Tokenizer} {texts : List String} {start : Nat}
    {o : String × Nat} (ho : o ∈ spread tokenizer texts start) : start ≤ o.2 := by
  induction texts generalizing start with
  | nil => cases ho
  | cons text rest ih =>
    rcases List.mem_append.1 ho with ho | ho
    · obtain ⟨token, -, rfl⟩ := List.mem_map.1 ho
      exact Nat.le_add_right ..
    · have := ih ho
      omega

/-- The texts behind one leave a gap to it. -/
theorem gap_spread {tokenizer : Tokenizer} {text : String} {rest : List String} {start : Nat}
    {a b : String × Nat}
    (ha : a ∈ (tokenizer.tokens .add text).map fun t => (t.text, start + t.position))
    (hb : b ∈ spread tokenizer rest
      (start + ((tokenizer.tokens .add text).foldl (fun last t => max last t.position) 0 + 2))) :
    a.2 + 2 ≤ b.2 := by
  obtain ⟨token, htoken, rfl⟩ := List.mem_map.1 ha
  have hlast := (le_foldl_max (tokenizer.tokens .add text) 0).2 token htoken
  have hstart := le_of_mem_spread hb
  dsimp only
  omega

/-- The places of a query in the texts of a value are those in each text. -/
theorem phraseCount_spread {mode : SearchMode} {tokens : List Token} (h : Adjacent tokens)
    (tokenizer : Tokenizer) (texts : List String) (start : Nat) :
    phraseCount mode tokens (spread tokenizer texts start) =
      total (texts.map fun text => phraseCount mode tokens (textTerms tokenizer text)) := by
  induction texts generalizing start with
  | nil => exact phraseCount_nil mode tokens
  | cons text rest ih =>
    have hblock : ((tokenizer.tokens .add text).map fun t => (t.text, start + t.position)) =
        (textTerms tokenizer text).map fun o => (o.1, start + o.2) := by
      rw [textTerms, List.map_map]
      rfl
    rw [spread, phraseCount_append h, ih, hblock, phraseCount_shift, List.map_cons, total_cons]
    intro a ha b hb
    exact gap_spread ha hb

end Concordance
