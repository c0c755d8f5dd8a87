import Concordance.Proofs.Mirroring
import Concordance.Proofs.Renaming

/-! # Outcomes that agree

Nothing that is searched by texts can tell databases apart that differ by a renaming of term ids. So
the outcomes of a call agree when they differ at most in ids that the call gave to new terms.
-/
namespace Concordance.Database
variable {db db₁ db₂ : Database} {σ : ObjectId → Equiv.Perm RecordId}

/-- Searches by texts do not depend on term ids. -/
theorem Renamed.search_eq (h : db₁.Renamed σ db₂)
    (hneat : ∀ {i : Nat} {ix}, db₁.indexes[i]? = some ix → ix.postings.Neat) {i : Nat}
    {query : EngineQuery} (hquery : ∀ ix, db₁.indexes[i]? = some ix → query.ByTexts ix.lexicon)
    (result : ResultTable) (operator : SelectOperator) (mode : SearchMode) :
    db₂.search i query result operator mode = db₁.search i query result operator mode := by
  cases hix : db₁.indexes[i]? with
  | none =>
    simp only [search, Database.index, hix, h.noIndex hix]
    rfl
  | some ix =>
    obtain ⟨jx, hjx, hrenamed⟩ := h.index hix
    obtain ⟨hlexicon, hrange, hflags, htokenizer, -⟩ := Index.frame_eq_iff.1 hrenamed.frame
    refine search_congr hix hjx hrange (fun text mode => ?_) (hquery ix hix)
      (hlexicon ▸ hquery ix hix) result operator mode
    simp only [matchText, hlexicon]
    cases ht : db₁.tables[ix.lexicon]? with
    | none => rw [h.noTable ht]
    | some t =>
      obtain ⟨u, hu, htable⟩ := h.table ht
      rw [hu]
      refine Std.ExtTreeMap.ext_getElem? fun record => ?_
      exact Index.getElem?_matchText_congr htokenizer hflags (hneat hix)
        (hrenamed.neat (hneat hix)) (fun t s q => hrenamed.tally_eq htable t record s q) text mode

/-! ## What renaming goes along with -/

theorem Renamed.claimName (h : db₁.Renamed σ db₂) (name : String) (id : ObjectId) :
    (db₁.claimName name id).Renamed σ (db₂.claimName name id) :=
  { h with names := by simp only [Database.claimName, h.names] }

theorem Renamed.setSourceList (h : db₁.Renamed σ db₂) (i : Nat) (sources : List ObjectId) :
    (db₁.setSourceList i sources).Renamed σ (db₂.setSourceList i sources) := by
  cases hix : db₁.indexes[i]? with
  | none => simpa only [Database.setSourceList, hix, h.noIndex hix] using h
  | some ix =>
    obtain ⟨jx, hjx, hrenamed⟩ := h.index hix
    rw [setSourceList_of_get hix, setSourceList_of_get hjx]
    refine ⟨h.objects, h.columns, h.names, h.nextId, h.table, h.noTable, ?_, ?_⟩
    · intro j kx hkx
      simp only [FiniteMap.getElem?_insert] at hkx ⊢
      split at hkx
      · cases hkx
        rw [if_pos ‹_›]
        obtain ⟨hlexicon, hrange, hflags, htokenizer, -⟩ := Index.frame_eq_iff.1 hrenamed.frame
        exact ⟨_, rfl, Index.frame_eq_iff.2 ⟨hlexicon, hrange, hflags, htokenizer, rfl⟩,
          hrenamed.list⟩
      · rw [if_neg ‹_›]
        exact h.index hkx
    · intro j hj
      simp only [FiniteMap.getElem?_insert] at hj ⊢
      split at hj
      · cases hj
      · rw [if_neg ‹_›]
        exact h.noIndex hj

theorem Renamed.drop (h : db₁.Renamed σ db₂) (id : ObjectId) :
    (db₁.drop id).Renamed σ (db₂.drop id) where
  objects := by simp only [Database.drop, h.objects]
  columns := by simp only [Database.drop, h.columns]
  names := by simp only [Database.drop, object?, h.objects, h.names]
  nextId := h.nextId
  table {i t} ht := by
    simp only [Database.drop, FiniteMap.getElem?_erase] at ht ⊢
    split at ht
    · cases ht
    · rw [if_neg ‹_›]
      exact h.table ht
  noTable {i} ht := by
    simp only [Database.drop, FiniteMap.getElem?_erase] at ht ⊢
    split at ht
    · rw [if_pos ‹_›]
    · rw [if_neg ‹_›]
      exact h.noTable ht
  index {i ix} hix := by
    simp only [Database.drop, FiniteMap.getElem?_erase] at hix ⊢
    split at hix
    · cases hix
    · rw [if_neg ‹_›]
      exact h.index hix
  noIndex {i} hix := by
    simp only [Database.drop, FiniteMap.getElem?_erase] at hix ⊢
    split at hix
    · rw [if_pos ‹_›]
    · rw [if_neg ‹_›]
      exact h.noIndex hix

theorem Renamed.foldl_drop (h : db₁.Renamed σ db₂) (gone : List ObjectId) :
    (gone.foldl Database.drop db₁).Renamed σ (gone.foldl Database.drop db₂) := by
  induction gone generalizing db₁ db₂ with
  | nil => exact h
  | cons id rest ih => exact ih (h.drop id)

/-! ## Outcomes that agree -/

/-- Outcomes of a call that differ at most in ids that the call gave to new terms: both succeed with
the same answer or both fail, and searches by texts find the same afterwards. -/
structure Agree {α : Type} (db : Database) (a b : Outcome α) : Prop where
  answer : b.1.toOption = a.1.toOption
  renamed : db.RenamedSince a.2 b.2
  search : ∀ (i : Nat) query, (∀ ix, a.2.indexes[i]? = some ix → query.ByTexts ix.lexicon) →
    ∀ result operator mode,
      b.2.search i query result operator mode = a.2.search i query result operator mode

theorem Agree.refl {α : Type} (db : Database) (a : Outcome α) : db.Agree a a :=
  ⟨rfl, .refl db a.2, fun _ _ _ _ _ _ => rfl⟩

/-- Two refusals that leave the same behind agree, whatever their reasons. -/
theorem Agree.of_refusal {α : Type} (db db₁ : Database) (err err' : Error) :
    db.Agree ((.error err, db₁) : Outcome α) (.error err', db₁) :=
  ⟨rfl, .refl db db₁, fun _ _ _ _ _ _ => rfl⟩

/-- Successes that differ by a renaming of new ids agree. -/
theorem RenamedSince.agree {α : Type} {answer answer' : Except Error α}
    (h : db.RenamedSince db₁ db₂) (hanswer : answer'.toOption = answer.toOption)
    (hneat : ∀ {i : Nat} {ix}, db₁.indexes[i]? = some ix → ix.postings.Neat) :
    db.Agree (answer, db₁) (answer', db₂) := by
  refine ⟨hanswer, h, fun i query hquery result operator mode => ?_⟩
  obtain ⟨σ, hrenamed, -⟩ := h
  exact hrenamed.search_eq hneat hquery result operator mode

end Concordance.Database
