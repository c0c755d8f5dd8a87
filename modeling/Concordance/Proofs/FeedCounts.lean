import Concordance.Database.Feed
import Concordance.Proofs.PostingCounts
import Concordance.Proofs.TableKeys

/-! # What a delta does to the counts

The tally of an index counts a position under the text of its term, so that it does not depend on
the ids that the lexicon gave out. A delta takes the old occurrences out of the tally as far as they
are there, adds the new ones, and leaves every other place alone.
-/
namespace Concordance
variable {lexicon : Table} {p : Postings} {record sec : Nat}

/-- How often a position occurs for a term given by its text. -/
def tally (lexicon : Table) (p : Postings) (term : String) (record sec position : Nat) : Nat :=
  match lexicon.find? term with
  | some id => (p.positions id record sec).count position
  | none => 0

/-- Postings over a lexicon: a table with keys, among them those of all the terms. -/
structure Matched (lexicon : Table) (p : Postings) : Prop where
  sound : lexicon.Sound
  hasKey : lexicon.kind.hasKey
  key : ∀ {id r s q : Nat}, q ∈ p.positions id r s → ∃ key, lexicon.key? id = some key

theorem Matched.empty (hs : lexicon.Sound) (hk : lexicon.kind.hasKey) :
    Matched lexicon .empty := ⟨hs, hk, by simp⟩

theorem tally_of_find? {term : String} {id : Nat} (h : lexicon.find? term = some id)
    (r s q : Nat) : tally lexicon p term r s q = (p.positions id r s).count q := by
  simp [tally, h]

theorem tally_of_new {term : String} (h : lexicon.find? term = none) (r s q : Nat) :
    tally lexicon p term r s q = 0 := by
  simp [tally, h]

/-- An id without a key has no positions. -/
theorem Matched.positions_of_new (h : Matched lexicon p) {id : Nat} (hid : lexicon.key? id = none)
    (r s : Nat) : p.positions id r s = [] := by
  refine List.eq_nil_iff_forall_not_mem.2 fun q hq => ?_
  obtain ⟨key, hkey⟩ := h.key hq
  cases hid.symm.trans hkey

/-- A larger lexicon says nothing new about postings that the smaller one covers. -/
theorem Matched.tally_grows (h : Matched lexicon p) {lexicon' : Table} (hg : lexicon.Grows lexicon')
    (hs : lexicon'.Sound) (term : String) (r s q : Nat) :
    tally lexicon' p term r s q = tally lexicon p term r s q := by
  cases hf : lexicon.find? term with
  | some id => rw [tally_of_find? hf, tally_of_find? (hg.find? hf)]
  | none =>
    rw [tally_of_new hf]
    cases hf' : lexicon'.find? term with
    | none => exact tally_of_new hf' r s q
    | some id =>
      rw [tally_of_find? hf', h.positions_of_new (hg.key?_eq_none h.sound hs hf hf'),
        List.count_nil]

theorem Matched.grows (h : Matched lexicon p) {lexicon' : Table} (hg : lexicon.Grows lexicon')
    (hs : lexicon'.Sound) : Matched lexicon' p where
  sound := hs
  hasKey := by rw [hg.kind]; exact h.hasKey
  key hq := by
    obtain ⟨key, hkey⟩ := h.key hq
    exact ⟨key, hg.key? hkey⟩

/-! ## Retracting -/

theorem Matched.remove (h : Matched lexicon p) (hn : p.Neat) (id record sec position : Nat) :
    Matched lexicon (p.remove id record sec position) where
  sound := h.sound
  hasKey := h.hasKey
  key hq := by
    rw [hn.positions_remove] at hq
    split at hq
    · rename_i heq
      rw [heq.1]
      exact h.key (List.mem_of_mem_erase hq)
    · exact h.key hq

theorem Matched.tally_remove (h : Matched lexicon p) (hn : p.Neat) {term : String} {id : Nat}
    (hf : lexicon.find? term = some id) (position : Nat) (t : String) (r s q : Nat) :
    tally lexicon (p.remove id record sec position) t r s q =
      tally lexicon p t r s q -
        if r = record ∧ s = sec ∧ term = t ∧ position = q then 1 else 0 := by
  cases ht : lexicon.find? t with
  | none => rw [tally_of_new ht, tally_of_new ht, Nat.zero_sub]
  | some i =>
    rw [tally_of_find? ht, tally_of_find? ht, hn.positions_remove]
    have hid : i = id ↔ term = t := by
      constructor
      · rintro rfl
        exact Option.some.inj ((h.sound.find?_iff.1 hf).symm.trans (h.sound.find?_iff.1 ht))
      · rintro rfl
        exact Option.some.inj (ht.symm.trans hf)
    by_cases hcase : i = id ∧ r = record ∧ s = sec
    · obtain ⟨rfl, rfl, rfl⟩ := hcase
      have hterm := hid.1 rfl
      rw [if_pos ⟨rfl, rfl, rfl⟩, List.count_erase]
      by_cases hq : position = q <;> simp [hterm, hq]
    · rw [if_neg hcase, if_neg, Nat.sub_zero]
      rintro ⟨hr, hs, hterm, -⟩
      exact hcase ⟨hid.2 hterm, hr, hs⟩

theorem Matched.retract (h : Matched lexicon p) (hn : p.Neat) (record sec : Nat)
    (occurrences : List (String × Nat)) :
    Matched lexicon (retract lexicon record sec p occurrences) := by
  induction occurrences generalizing p with
  | nil => exact h
  | cons o rest ih =>
    simp only [Concordance.retract, List.foldl_cons]
    cases lexicon.find? o.1 with
    | none => exact ih h hn
    | some id => exact ih (h.remove hn id record sec o.2) (hn.remove id record sec o.2)

theorem Matched.tally_retract (h : Matched lexicon p) (hn : p.Neat) (record sec : Nat)
    (occurrences : List (String × Nat)) (t : String) (r s q : Nat) :
    tally lexicon (Concordance.retract lexicon record sec p occurrences) t r s q =
      tally lexicon p t r s q -
        if r = record ∧ s = sec then occurrences.count (t, q) else 0 := by
  induction occurrences generalizing p with
  | nil => simp [Concordance.retract]
  | cons o rest ih =>
    obtain ⟨term, position⟩ := o
    have hcount : ((term, position) :: rest).count (t, q) =
        rest.count (t, q) + if term = t ∧ position = q then 1 else 0 := by
      simp [List.count_cons]
    simp only [Concordance.retract, List.foldl_cons] at ih ⊢
    cases hf : lexicon.find? term with
    | none =>
      dsimp only
      rw [ih h hn, hcount]
      by_cases hterm : term = t
      · subst hterm
        rw [tally_of_new hf, Nat.zero_sub, Nat.zero_sub]
      · simp [hterm]
    | some id =>
      dsimp only
      rw [ih (h.remove hn id record sec position) (hn.remove id record sec position),
        h.tally_remove hn hf, hcount]
      by_cases hplace : r = record ∧ s = sec
      · simp only [hplace, true_and, and_self, if_true]
        omega
      · have hcase : ¬ (r = record ∧ s = sec ∧ term = t ∧ position = q) :=
          fun hc => hplace ⟨hc.1, hc.2.1⟩
        rw [if_neg hplace, if_neg hplace, if_neg hcase]
        rfl

theorem neat_retract (hn : p.Neat) (lexicon : Table) (record sec : Nat)
    (occurrences : List (String × Nat)) :
    (Concordance.retract lexicon record sec p occurrences).Neat := by
  induction occurrences generalizing p with
  | nil => exact hn
  | cons o rest ih =>
    simp only [Concordance.retract, List.foldl_cons]
    cases lexicon.find? o.1 with
    | none => exact ih hn
    | some id => exact ih (hn.remove id record sec o.2)

/-- Retracting brings no position in. -/
theorem mem_of_mem_retract (hn : p.Neat) {occurrences : List (String × Nat)} {id r s q : Nat}
    (hq : q ∈ (Concordance.retract lexicon record sec p occurrences).positions id r s) :
    q ∈ p.positions id r s := by
  induction occurrences generalizing p with
  | nil => exact hq
  | cons o rest ih =>
    simp only [Concordance.retract, List.foldl_cons] at hq ih
    cases hf : lexicon.find? o.1 with
    | none => simp only [hf] at hq; exact ih hn hq
    | some i =>
      simp only [hf] at hq
      have hmem := ih (hn.remove i record sec o.2) hq
      rw [hn.positions_remove] at hmem
      split at hmem
      · rename_i heq
        rw [heq.1, heq.2.1, heq.2.2]
        exact List.mem_of_mem_erase hmem
      · exact hmem

/-! ## Inserting -/

theorem Matched.insert (h : Matched lexicon p) (record sec : Nat) (o : String × Nat) :
    Matched (insertOccurrence record sec (lexicon, p) o).1
      (insertOccurrence record sec (lexicon, p) o).2 where
  sound := h.sound.addKey h.hasKey o.1
  hasKey := by simpa [insertOccurrence] using h.hasKey
  key := by
    intro id r s q hq
    simp only [insertOccurrence, Postings.positions_add] at hq ⊢
    split at hq
    · rename_i heq
      have hfind : (lexicon.addKey o.1).2.find? o.1 = some (lexicon.addKey o.1).1 := by
        rw [Table.find?_addKey, if_pos rfl]
      exact ⟨o.1, heq.1 ▸ (h.sound.addKey h.hasKey o.1).find?_iff.1 hfind⟩
    · obtain ⟨key, hkey⟩ := h.key hq
      exact ⟨key, (h.sound.grows_addKey o.1).key? hkey⟩

theorem Matched.tally_insert (h : Matched lexicon p) (record sec : Nat) (o : String × Nat)
    (t : String) (r s q : Nat) :
    tally (insertOccurrence record sec (lexicon, p) o).1
        (insertOccurrence record sec (lexicon, p) o).2 t r s q =
      tally lexicon p t r s q +
        if r = record ∧ s = sec ∧ o.1 = t ∧ o.2 = q then 1 else 0 := by
  obtain ⟨term, position⟩ := o
  have hs := h.sound.addKey h.hasKey term
  rw [← h.tally_grows (h.sound.grows_addKey term) hs]
  simp only [insertOccurrence]
  cases ht : (lexicon.addKey term).2.find? t with
  | none =>
    rw [tally_of_new ht, tally_of_new ht, if_neg]
    rintro ⟨-, -, rfl, -⟩
    simp [Table.find?_addKey] at ht
  | some i =>
    rw [tally_of_find? ht, tally_of_find? ht, Postings.positions_add]
    have hid : i = (lexicon.addKey term).1 ↔ term = t := by
      have hterm : (lexicon.addKey term).2.find? term = some (lexicon.addKey term).1 := by
        rw [Table.find?_addKey, if_pos rfl]
      constructor
      · rintro rfl
        exact Option.some.inj ((hs.find?_iff.1 hterm).symm.trans (hs.find?_iff.1 ht))
      · rintro rfl
        exact Option.some.inj (ht.symm.trans hterm)
    by_cases hcase : i = (lexicon.addKey term).1 ∧ r = record ∧ s = sec
    · obtain ⟨rfl, rfl, rfl⟩ := hcase
      simp [Positions.count_insert, hid.1 rfl]
    · rw [if_neg hcase, if_neg, Nat.add_zero]
      rintro ⟨hr, hs, hterm, -⟩
      exact hcase ⟨hid.2 hterm, hr, hs⟩

/-- The lexicon and the postings after some occurrences came in. -/
def insertAll (record sec : Nat) (state : Table × Postings) (occurrences : List (String × Nat)) :
    Table × Postings := occurrences.foldl (insertOccurrence record sec) state

theorem Matched.insertAll {state : Table × Postings} (h : Matched state.1 state.2)
    (record sec : Nat) (occurrences : List (String × Nat)) :
    Matched (insertAll record sec state occurrences).1
      (insertAll record sec state occurrences).2 := by
  induction occurrences generalizing state with
  | nil => exact h
  | cons o rest ih => exact ih (h.insert record sec o)

theorem Matched.grows_insertAll {state : Table × Postings} (h : Matched state.1 state.2)
    (record sec : Nat) (occurrences : List (String × Nat)) :
    state.1.Grows (Concordance.insertAll record sec state occurrences).1 := by
  induction occurrences generalizing state with
  | nil => exact .refl _
  | cons o rest ih => exact (h.sound.grows_addKey o.1).trans (ih (h.insert record sec o))

theorem Matched.tally_insertAll {state : Table × Postings} (h : Matched state.1 state.2)
    (record sec : Nat) (occurrences : List (String × Nat)) (t : String) (r s q : Nat) :
    tally (Concordance.insertAll record sec state occurrences).1
        (Concordance.insertAll record sec state occurrences).2 t r s q =
      tally state.1 state.2 t r s q +
        if r = record ∧ s = sec then occurrences.count (t, q) else 0 := by
  induction occurrences generalizing state with
  | nil => simp [Concordance.insertAll]
  | cons o rest ih =>
    have hstep := h.tally_insert record sec o t r s q
    have hrest := ih (h.insert record sec o)
    have hcount : (o :: rest).count (t, q) =
        rest.count (t, q) + if o.1 = t ∧ o.2 = q then 1 else 0 := by
      simp [List.count_cons, Prod.ext_iff]
    simp only [Concordance.insertAll, List.foldl_cons] at hrest ⊢
    rw [hrest, hstep, hcount]
    by_cases hplace : r = record ∧ s = sec
    · simp only [hplace, true_and, and_self, if_true]
      omega
    · have hcase : ¬ (r = record ∧ s = sec ∧ o.1 = t ∧ o.2 = q) :=
        fun hc => hplace ⟨hc.1, hc.2.1⟩
      rw [if_neg hplace, if_neg hplace, if_neg hcase]

theorem neat_insertAll {state : Table × Postings} (hn : state.2.Neat) (record sec : Nat)
    (occurrences : List (String × Nat)) :
    (insertAll record sec state occurrences).2.Neat := by
  induction occurrences generalizing state with
  | nil => exact hn
  | cons o rest ih => exact ih (hn.add _ record sec o.2)

/-- What comes in is an occurrence of the record and the section. -/
theorem mem_of_mem_insertAll {state : Table × Postings} {occurrences : List (String × Nat)}
    {id r s q : Nat} (hq : q ∈ (insertAll record sec state occurrences).2.positions id r s) :
    q ∈ state.2.positions id r s ∨ r = record ∧ q ∈ occurrences.map (·.2) := by
  induction occurrences generalizing state with
  | nil => exact .inl hq
  | cons o rest ih =>
    rcases ih hq with hq | ⟨hr, hq⟩
    · simp only [insertOccurrence, Postings.positions_add] at hq
      split at hq
      · rename_i heq
        rcases Positions.mem_insert.1 hq with rfl | hq
        · exact .inr ⟨heq.2.1, by simp⟩
        · rw [heq.1, heq.2.1, heq.2.2]
          exact .inl hq
      · exact .inl hq
    · exact .inr ⟨hr, by simp [hq]⟩

/-! ## A whole delta -/

namespace Index
variable {ix : Index}

/-- How often texts yield a term at a position of a section when they come from a source number. -/
def share (ix : Index) (source : Nat) (texts : List String) (term : String) (sec position : Nat) :
    Nat :=
  if sec = (ix.place source).1 then (ix.occurrences source texts).count (term, position) else 0

@[simp] theorem share_nil (ix : Index) (source : Nat) (term : String) (sec position : Nat) :
    ix.share source [] term sec position = 0 := by
  simp [share, occurrences, positionedTokens]

theorem change_eq (ix : Index) (lexicon : Table) (delta : Delta) :
    ix.change lexicon delta =
      insertAll delta.record (ix.place delta.sec).1
        (lexicon, retract lexicon delta.record (ix.place delta.sec).1 ix.postings
          (ix.occurrences delta.sec delta.old))
        (ix.occurrences delta.sec delta.new) := rfl

theorem matched_change (h : Matched lexicon ix.postings) (hn : ix.postings.Neat)
    (delta : Delta) :
    Matched (ix.change lexicon delta).1 (ix.change lexicon delta).2 := by
  rw [change_eq]
  exact Matched.insertAll (h.retract hn _ _ _) _ _ _

theorem grows_change (h : Matched lexicon ix.postings) (hn : ix.postings.Neat) (delta : Delta) :
    lexicon.Grows (ix.change lexicon delta).1 := by
  let kept := retract lexicon delta.record (ix.place delta.sec).1 ix.postings
    (ix.occurrences delta.sec delta.old)
  have hkept : Matched (lexicon, kept).1 (lexicon, kept).2 := h.retract hn _ _ _
  exact hkept.grows_insertAll _ _ _

theorem neat_change (hn : ix.postings.Neat) (lexicon : Table) (delta : Delta) :
    (ix.change lexicon delta).2.Neat := by
  rw [change_eq]
  exact neat_insertAll (neat_retract hn _ _ _ _) _ _ _

/-- The old texts go as far as they are there, and the new ones come. -/
theorem tally_change (h : Matched lexicon ix.postings) (hn : ix.postings.Neat) (delta : Delta)
    (t : String) (r s q : Nat) :
    tally (ix.change lexicon delta).1 (ix.change lexicon delta).2 t r s q =
      tally lexicon ix.postings t r s q -
          (if r = delta.record then ix.share delta.sec delta.old t s q else 0) +
        (if r = delta.record then ix.share delta.sec delta.new t s q else 0) := by
  rw [change_eq, Matched.tally_insertAll (h.retract hn _ _ _), h.tally_retract hn]
  simp only [share]
  by_cases hr : r = delta.record <;> simp [hr]

theorem position_le_of_mem_occurrences {source : Nat} {texts : List String} {o : String × Nat}
    (ho : o ∈ ix.occurrences source texts) : o.2 ≤ wordMax := by
  simp only [occurrences] at ho
  generalize (ix.place source).2 = start at ho
  induction texts generalizing start with
  | nil => simp [positionedTokens] at ho
  | cons text rest ih =>
    rcases List.mem_append.1 ho with ho | ho
    · obtain ⟨token, -, rfl⟩ := List.mem_map.1 ho
      exact Nat.min_le_right _ _
    · exact ih _ ho

theorem mem_of_mem_change (hn : ix.postings.Neat) {delta : Delta} {id r s q : Nat}
    (hq : q ∈ (ix.change lexicon delta).2.positions id r s) :
    q ∈ ix.postings.positions id r s ∨ r = delta.record ∧ q ≤ wordMax := by
  rw [change_eq] at hq
  rcases mem_of_mem_insertAll hq with hq | ⟨hr, hq⟩
  · exact .inl (mem_of_mem_retract hn hq)
  · obtain ⟨o, ho, rfl⟩ := List.mem_map.1 hq
    exact .inr ⟨hr, position_le_of_mem_occurrences ho⟩

end Index

end Concordance
