import Concordance.Proofs.PairRuns
import Concordance.Proofs.PhraseBlocks
import Mathlib.Data.List.Nodup

/-! # The positions of one value

The texts of a value are laid out one behind another, each with its tokens at their own distances
and a gap before the next. So no two tokens of a value share a position, and what retracts one text
leaves the positions of the others alone.
-/
namespace Concordance

/-- Two past the last token of a text, counted from its start. -/
def Tokenizer.reach (tokenizer : Tokenizer) (text : String) : Nat :=
  (tokenizer.tokens .add text).foldl (fun last t => max last t.position) 0 + 2

/-- Where the texts of a value start: each where the one before it has reached. -/
def textStarts (tokenizer : Tokenizer) : List String → (start : Nat) → List Nat
  | [], _ => []
  | text :: rest, start => start :: textStarts tokenizer rest (start + tokenizer.reach text)

/-- The terms of each text of a value, at the start of the text plus their own positions. -/
def itemTokens (tokenizer : Tokenizer) (texts : List String) (start : Nat) :
    List (List (String × Nat)) :=
  List.zipWith (fun text first => (tokenizer.tokens .add text).map fun t =>
    (t.text, first + t.position)) texts (textStarts tokenizer texts start)

section Layout
variable {tokenizer : Tokenizer} {texts : List String} {start : Nat}

theorem itemTokens_cons (tokenizer : Tokenizer) (text : String) (rest : List String) (start : Nat) :
    itemTokens tokenizer (text :: rest) start =
      ((tokenizer.tokens .add text).map fun t => (t.text, start + t.position)) ::
        itemTokens tokenizer rest (start + tokenizer.reach text) := rfl

theorem flatten_itemTokens (tokenizer : Tokenizer) (texts : List String) (start : Nat) :
    (itemTokens tokenizer texts start).flatten = spread tokenizer texts start := by
  induction texts generalizing start with
  | nil => rfl
  | cons text rest ih =>
    rw [itemTokens_cons, List.flatten_cons, ih]
    rfl

theorem pairwise_itemTokens (tokenizer : Tokenizer) (texts : List String) (start : Nat) :
    (itemTokens tokenizer texts start).Pairwise fun front back =>
      ∀ a ∈ front, ∀ b ∈ back, a.2 + 2 ≤ b.2 := by
  induction texts generalizing start with
  | nil => exact .nil
  | cons text rest ih =>
    rw [itemTokens_cons]
    refine List.pairwise_cons.2 ⟨fun back hback a ha b hb => ?_, ih _⟩
    have hmem : b ∈ spread tokenizer rest (start + tokenizer.reach text) := by
      rw [← flatten_itemTokens]
      exact List.mem_flatten.2 ⟨back, hback, hb⟩
    exact gap_spread ha hmem

theorem ascending_of_mem_itemTokens {item : List (String × Nat)}
    (hitem : item ∈ itemTokens tokenizer texts start) : item.Pairwise fun a b => a.2 < b.2 := by
  induction texts generalizing start with
  | nil => cases hitem
  | cons text rest ih =>
    rw [itemTokens_cons] at hitem
    rcases List.mem_cons.1 hitem with rfl | hitem
    · apply List.pairwise_map.2
      exact (tokenizer.pairwise_tokens .add text).imp fun hlt => Nat.add_lt_add_left hlt start
    · exact ih hitem

theorem ascending_spread (tokenizer : Tokenizer) (texts : List String) (start : Nat) :
    (spread tokenizer texts start).Pairwise fun a b => a.2 < b.2 := by
  rw [← flatten_itemTokens]
  apply List.pairwise_flatten.2
  refine ⟨fun item => ascending_of_mem_itemTokens, ?_⟩
  apply (pairwise_itemTokens tokenizer texts start).imp
  intro front back hgap a ha b hb
  have := hgap a ha b hb
  omega

theorem positionedTokens_eq_map (tokenizer : Tokenizer) (texts : List String) (start : Nat) :
    positionedTokens tokenizer texts start =
      (spread tokenizer texts start).map fun o => (o.1, saturate o.2) := by
  cases texts with
  | nil => rfl
  | cons text rest =>
    rw [positionedTokens, positionedTokens_saturate, spread, List.map_append, List.map_map]
    rfl

/-- Positions that stay below the largest word are where the texts are laid out. -/
theorem positionedTokens_of_lt
    (hroom : ∀ o ∈ positionedTokens tokenizer texts start, o.2 < wordMax) :
    positionedTokens tokenizer texts start = spread tokenizer texts start := by
  rw [positionedTokens_eq_map] at hroom ⊢
  refine (List.map_congr_left fun o ho => ?_).trans (List.map_id _)
  have hlt := hroom _ (List.mem_map_of_mem ho)
  have hsame : saturate o.2 = o.2 := by
    simp only [saturate] at hlt ⊢
    omega
  rw [hsame]
  rfl

theorem ne_of_mem_itemTokens {i j : Nat} {item other : List (String × Nat)}
    (hitem : (itemTokens tokenizer texts start)[i]? = some item)
    (hother : (itemTokens tokenizer texts start)[j]? = some other) (hij : i ≠ j) :
    ∀ a ∈ item, ∀ b ∈ other, a.2 ≠ b.2 := by
  intro a ha b hb
  obtain ⟨hi, rfl⟩ := List.getElem?_eq_some_iff.1 hitem
  obtain ⟨hj, rfl⟩ := List.getElem?_eq_some_iff.1 hother
  have hgap := List.pairwise_iff_getElem.1 (pairwise_itemTokens tokenizer texts start)
  rcases Nat.lt_or_gt_of_ne hij with hlt | hlt
  · have := hgap i j hi hj hlt a ha b hb
    omega
  · have := hgap j i hj hi hlt b hb a ha
    omega

end Layout

theorem count_retract_of_ne {occurrences : List (String × Nat)} {q : Nat}
    (hne : ∀ o ∈ occurrences, o.2 ≠ q) (lexicon : Table) (record sec : Nat) {p : Postings}
    (hn : p.Neat) (t r s : Nat) :
    ((retract lexicon record sec p occurrences).positions t r s).count q =
      (p.positions t r s).count q := by
  induction occurrences generalizing p with
  | nil => rfl
  | cons o rest ih =>
    have hrest {p : Postings} := @ih (fun o ho => hne o (List.mem_cons_of_mem _ ho)) p
    have ho : o.2 ≠ q := hne o (List.mem_cons_self ..)
    simp only [retract, List.foldl_cons] at hrest ⊢
    cases lexicon.find? o.1 with
    | none => exact hrest hn
    | some id =>
      rw [hrest (hn.remove id record sec o.2), hn.positions_remove]
      split
      · rename_i hplace
        rw [hplace.1, hplace.2.1, hplace.2.2, List.count_erase_of_ne ho.symm]
      · rfl

/-- As long as no position reaches the largest word, the tokens of a value are those of its texts,
each text at its own start, two past the last token before it or further. Positions grow over all of
them and none is below the start. So every term is at most once at a position, and retracting one
text of the value from neat postings takes nothing from the positions of another. -/
theorem positionedTokens_spec {tokenizer : Tokenizer} {texts : List String} {start : Nat}
    (hroom : ∀ o ∈ positionedTokens tokenizer texts start, o.2 < wordMax) :
    positionedTokens tokenizer texts start = (itemTokens tokenizer texts start).flatten ∧
    ((positionedTokens tokenizer texts start).Pairwise fun a b => a.2 < b.2) ∧
    ((itemTokens tokenizer texts start).Pairwise fun front back =>
      ∀ a ∈ front, ∀ b ∈ back, a.2 + 2 ≤ b.2) ∧
    (∀ o ∈ positionedTokens tokenizer texts start, start ≤ o.2) ∧
    (∀ o, (positionedTokens tokenizer texts start).count o ≤ 1) ∧
    ∀ (i j : Nat) item other, (itemTokens tokenizer texts start)[i]? = some item →
      (itemTokens tokenizer texts start)[j]? = some other → i ≠ j →
        ∀ (lexicon : Table) (record sec : Nat) {p : Postings}, p.Neat → ∀ t r s : Nat, ∀ o ∈ other,
          ((retract lexicon record sec p item).positions t r s).count o.2 =
            (p.positions t r s).count o.2 := by
  rw [positionedTokens_of_lt hroom]
  have hascending := ascending_spread tokenizer texts start
  have hnodup : (spread tokenizer texts start).Nodup := by
    apply hascending.imp
    rintro a _ hlt rfl
    exact Nat.lt_irrefl _ hlt
  refine ⟨(flatten_itemTokens tokenizer texts start).symm, hascending,
    pairwise_itemTokens tokenizer texts start, fun o => le_of_mem_spread,
    List.nodup_iff_count_le_one.1 hnodup, ?_⟩
  intro i j item other hitem hother hij lexicon record sec p hn t r s o ho
  refine count_retract_of_ne ?_ lexicon record sec hn t r s
  exact fun a ha => ne_of_mem_itemTokens hitem hother hij a ha o ho

/-- Three items with a blank one among them: it brings no token and still takes its place. -/
theorem positionedTokens_spec_blank :
    (∀ o ∈ positionedTokens .bigram ["ab c", " ", "ab"] 7, o.2 < wordMax) ∧
    positionedTokens .bigram ["ab c", " ", "ab"] 7 =
      [("ab", 7), ("b", 8), ("c", 10), ("ab", 14), ("b", 15)] ∧
    ∀ o ∈ positionedTokens .bigram ["ab c", " ", "ab"] 7, 7 ≤ o.2 :=
  have hroom : ∀ o ∈ positionedTokens .bigram ["ab c", " ", "ab"] 7, o.2 < wordMax := by
    decide +kernel
  ⟨hroom, by decide +kernel, (positionedTokens_spec hroom).2.2.2.1⟩

end Concordance
