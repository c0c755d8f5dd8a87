import Concordance.Proofs.Matching
import Concordance.Proofs.Reopening
import Concordance.Proofs.Revisions

/-! # Records on their own

Whatever an index is told of one record, any query finds the same in every other record as before:
the lexicon may gain terms, and with them queries may select more, but nothing that a record holds.
-/
namespace Concordance.Database
variable {db db' : Database} {i record r : Nat} {ix : Index}

/-- An index is the same but for its postings, and any query finds the same in the record; a text
also overruns the words in it as before. -/
def FindsSame (i record : Nat) (db db' : Database) : Prop :=
  ∀ ix, db.indexes[i]? = some ix → ∃ jx, db'.indexes[i]? = some jx ∧ jx.frame = ix.frame ∧
    (∀ flags mode query, (db'.matchesOf jx flags mode query).map (·[record]?) =
      (db.matchesOf ix flags mode query).map (·[record]?)) ∧
    ∀ text mode, (db'.matchText jx text mode)[record]? = (db.matchText ix text mode)[record]? ∧
      db'.overruns jx text mode record = db.overruns ix text mode record

theorem FindsSame.refl (i record : Nat) (db : Database) : FindsSame i record db db :=
  fun ix hix => ⟨ix, hix, rfl, fun _ _ _ => rfl, fun _ _ => ⟨rfl, rfl⟩⟩

theorem FindsSame.trans {db'' : Database} (h : FindsSame i record db db')
    (h' : FindsSame i record db' db'') : FindsSame i record db db'' := by
  intro ix hix
  obtain ⟨jx, hjx, hframe, hmatches, htexts⟩ := h ix hix
  obtain ⟨kx, hkx, hframe', hmatches', htexts'⟩ := h' jx hjx
  refine ⟨kx, hkx, hframe'.trans hframe, fun flags mode query => ?_, fun text mode => ⟨?_, ?_⟩⟩
  · exact (hmatches' flags mode query).trans (hmatches flags mode query)
  · exact (htexts' text mode).1.trans (htexts text mode).1
  · exact (htexts' text mode).2.trans (htexts text mode).2

/-- The record has kept its occurrences, and the lexicon its keys. -/
theorem WellFormed.findsSame (h : db.WellFormed) (h' : db'.WellFormed)
    (hframe : ∀ i : Nat, db'.indexes[i]?.map Index.frame = db.indexes[i]?.map Index.frame)
    (hkey : ∀ {ix}, db.indexes[i]? = some ix → ∀ {id : Nat} {k},
      db.recordKey? ix.lexicon id = some k → db'.recordKey? ix.lexicon id = some k)
    (hstored : ∀ t s q, db'.storedAt i t record s q = db.storedAt i t record s q) :
    FindsSame i record db db' := by
  intro ix hix
  have hmap := hframe i
  rw [hix, Option.map_some, Option.map_eq_some_iff] at hmap
  obtain ⟨jx, hjx, hjxframe⟩ := hmap
  obtain ⟨hlexicon, -, hflags, htokenizer, -⟩ := Index.frame_eq_iff.1 hjxframe
  obtain ⟨lexicon, hlex, -⟩ := h.catalogued.lexicon_table hix
  obtain ⟨lexicon', hlex', -⟩ := h'.catalogued.lexicon_table hjx
  have hm := h.posted.matched hix hlex
  have hm' := h'.posted.matched hjx hlex'
  have hn := h.posted.neat hix
  have hn' := h'.posted.neat hjx
  have htally : ∀ t s q, tally lexicon' jx.postings t record s q =
      tally lexicon ix.postings t record s q := by
    intro t s q
    rw [← stored_eq_tally jx hlex', ← stored_eq_tally ix hlex, ← storedAt_eq hix,
      ← storedAt_eq hjx, hstored]
  have hkeys : ∀ {id : Nat} {k}, lexicon.key? id = some k → lexicon'.key? id = some k := by
    intro id k hk
    have hk' : db.recordKey? ix.lexicon id = some k := by simp [recordKey?, hlex, hk]
    simpa [recordKey?, ← hlexicon, hlex'] using hkey hix hk'
  have htexts (text : String) (mode : SearchMode) :
      (db'.matchText jx text mode)[record]? = (db.matchText ix text mode)[record]? := by
    simp only [matchText, hlex, hlex']
    exact Index.getElem?_matchText_congr htokenizer hflags hn hn' htally text mode
  refine ⟨jx, hjx, hjxframe, getElem?_matchesOf_congr hlexicon (fun term => ?_) htexts,
    fun text mode => ⟨htexts text mode, ?_⟩⟩
  · exact Postings.getElem?_matchTerm_congr hn hn' (hm.positions_congr hm' hn hn' hkeys htally term)
  · simp only [overruns, hlex, hlex', Option.any_some]
    exact Index.overruns_congr htokenizer hflags hn hn' htally text mode

theorem Revised.findsSame (hr : db.Revised db' record) (h : db.WellFormed) (h' : db'.WellFormed)
    (hne : r ≠ record) (i : Nat) : FindsSame i r db db' := by
  refine h.findsSame h' hr.frame (fun {ix} hix id k hk => ?_) fun t s q => hr.spared hne i t s q
  obtain ⟨lexicon, hlex, -⟩ := h.catalogued.lexicon_table hix
  obtain ⟨lexicon', hlex', hg⟩ := hr.table hlex
  simp only [recordKey?, hlex] at hk
  simp only [recordKey?, hlex']
  exact hg.key? hk

theorem WellFormed.findsSame_forgetRecord (h : db.WellFormed) {table : Nat} {t : Table}
    (h' : (db.forgetRecord table record).WellFormed) (ht : db.tables[table]? = some t)
    (hix : db.indexes[i]? = some ix) (hapart : ix.lexicon ≠ table) (hne : r ≠ record) :
    FindsSame i r db (db.forgetRecord table record) := by
  refine h.findsSame h' (frame_forgetRecord db table record) (fun {jx} hjx id k hk => ?_) ?_
  · obtain rfl := Option.some.inj (hix.symm.trans hjx)
    simpa only [recordKey?, tables_forgetRecord ht, if_neg hapart] using hk
  · intro term s q
    have hjx : (db.forgetRecord table record).indexes[i]? = some (forgetIn table record ix) := by
      rw [indexes_forgetRecord, hix, Option.map_some]
    rw [storedAt_eq hix, storedAt_eq hjx, h.stored_forgetRecord ht record (h.posted.neat hix), if_neg]
    rintro (⟨-, heq⟩ | ⟨heq, -⟩)
    · exact hne heq
    · exact hapart heq

/-- A call that tells an index of one record at most: an update of the index, a value in a column
of its range, or that the record goes. -/
def TellsOf (db : Database) (i : Nat) (ix : Index) (record : Nat) : Call → Prop
  | .indexUpdate j r _ _ _ => j = i ∧ r = record
  | .setValue column r _ _ =>
    r = record ∧ ∃ valueType, db.kind? column = some (.column ix.range valueType)
  | .deleteRecord table r _ => table = ix.range ∧ r = record
  | _ => False

theorem WellFormed.findsSame_after (h : db.WellFormed) (hix : db.indexes[i]? = some ix)
    (hapart : ix.lexicon ≠ ix.range) (hne : r ≠ record) {call : Call}
    (hcall : db.TellsOf i ix record call) : FindsSame i r db (db.after call) := by
  cases call with
  | indexUpdate j r' sec old new =>
    obtain ⟨rfl, rfl⟩ := hcall
    have hrevised := h.revised_indexUpdate (Prod.eta (db.indexUpdate j r' sec old new)).symm
    have hwf : (db.after (.indexUpdate j r' sec old new)).WellFormed := h.after trivial
    exact hrevised.findsSame h hwf hne j
  | setValue column r' v e =>
    obtain ⟨rfl, -⟩ := hcall
    have hrevised := h.revised_setValue (Prod.eta (db.setValue column r' v)).symm
    have hwf : (db.after (.setValue column r' v e)).WellFormed := h.after trivial
    rw [h.after_setValue] at hwf ⊢
    exact hrevised.findsSame h hwf hne i
  | deleteRecord table r' e =>
    obtain ⟨rfl, rfl⟩ := hcall
    have hwf : (db.after (.deleteRecord ix.range r' e)).WellFormed := h.after trivial
    rw [h.after_deleteRecord] at hwf ⊢
    generalize hcall : db.deleteRecord ix.range r' = result at hwf ⊢
    obtain ⟨outcome, db'⟩ := result
    rcases h.deleteRecord_cases hcall with ⟨-, -, rfl⟩ | ⟨rfl, -⟩
    · exact .refl i r _
    · obtain ⟨db₁, t, hwf₁, hrevised, ht, -, rfl⟩ := h.deleteRecord_revised hcall
      have hfirst := hrevised.findsSame h hwf₁ hne i
      obtain ⟨jx, hjx, hframe, -⟩ := hfirst ix hix
      refine hfirst.trans (hwf₁.findsSame_forgetRecord hwf ht hjx ?_ hne)
      rw [(Index.frame_eq_iff.1 hframe).1]
      exact hapart
  | _ => exact hcall.elim

/-- Whatever is told of one record, and whatever a query is, it finds in another record what it
found before: whether it matches, its score and its sections are the same. Sums of places wrap
around. In a build that checks them, too, a search overruns the words in the other record as before,
and where it overruns them in no record before and after, it finds the same in the other record. -/
theorem matches_of_other_record (h : Reached OwnFiles db) (hix : db.indexes[i]? = some ix)
    (hapart : ix.lexicon ≠ ix.range) (hne : r ≠ record) {call : Call}
    (hcall : db.TellsOf i ix record call) :
    ∃ jx, (db.after call).indexes[i]? = some jx ∧
      (∀ flags mode query, ((db.after call).matchesOf jx flags mode query).map (·[r]?) =
        (db.matchesOf ix flags mode query).map (·[r]?)) ∧
      (∀ query result operator mode,
        ((db.after call).search i query result operator mode).map (·.records[r]?) =
          (db.search i query result operator mode).map (·.records[r]?)) ∧
      ∀ text mode, (db.after call).overruns jx text mode r = db.overruns ix text mode r ∧
        ∀ found found', db.checkedMatchText ix text mode = some found →
          (db.after call).checkedMatchText jx text mode = some found' → found'[r]? = found[r]? := by
  obtain ⟨jx, hjx, hframe, hmatches, htexts⟩ :=
    h.wellFormed_of_ownFiles.findsSame_after hix hapart hne hcall ix hix
  refine ⟨jx, hjx, hmatches, fun query result operator mode => ?_, fun text mode =>
    ⟨(htexts text mode).2, fun found found' hfound hfound' => ?_⟩⟩
  · exact getElem?_search_congr hix hjx (Index.frame_eq_iff.1 hframe).2.1
      (hmatches result.flags mode query) operator
  · rw [← matchText_of_checked hfound, ← matchText_of_checked hfound', (htexts text mode).1]

def twoNotes : Database :=
  (notes.after (.addRecord 257)).after (.setValue 258 2 (.text "not to be"))

/-- The first note goes, and "be" still finds the second. -/
theorem matches_of_other_record_twoNotes : ∃ ix jx, twoNotes.indexes[260]? = some ix ∧
    ix.lexicon ≠ ix.range ∧ (2 : Nat) ≠ 1 ∧
    twoNotes.TellsOf 260 ix 1 (.deleteRecord 257 1) ∧
      (twoNotes.after (.deleteRecord 257 1)).indexes[260]? = some jx ∧
        (((twoNotes.after (.deleteRecord 257 1)).matchesOf jx .all .exact
          (.compiled ⟨[⟨.or, "be", .exact⟩]⟩)).map (·[2]?)).toOption = some (some ⟨1, 1⟩) ∧
        ((twoNotes.matchesOf ix .all .exact
          (.compiled ⟨[⟨.or, "be", .exact⟩]⟩)).map (·[1]?)).toOption = some (some ⟨1, 1⟩) := by
  have hreached : Reached OwnFiles twoNotes :=
    .after _ (.after _ reached_ownFiles_notes trivial) trivial
  have hix : twoNotes.indexes[260]? = some (twoNotes.indexes[260]?.get (by decide +kernel)) :=
    (Option.some_get _).symm
  have htells : twoNotes.TellsOf 260 (twoNotes.indexes[260]?.get (by decide +kernel)) 1
      (.deleteRecord 257 1) := ⟨by decide +kernel, rfl⟩
  obtain ⟨jx, hjx, hmatches, -⟩ := matches_of_other_record hreached hix (by decide +kernel)
    (show (2 : Nat) ≠ 1 by decide) htells
  refine ⟨_, jx, hix, by decide +kernel, by decide, htells, hjx, ?_, by decide +kernel⟩
  rw [hmatches]
  decide +kernel

end Concordance.Database
