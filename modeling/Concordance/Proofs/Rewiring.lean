import Concordance.Proofs.Tracking

/-! # New sources for an index

Installing sources keeps a database well-formed, changes nothing of the catalog but the list, and
follows the texts of the new list.
-/
namespace Concordance

namespace Database
variable {db db' : Database} {i : Nat} {sources : List ObjectId}

theorem setSourceList_of_get {ix : Index} (hix : db.indexes[i]? = some ix)
    (sources : List ObjectId) : db.setSourceList i sources =
      { db with indexes := db.indexes.insert i { ix with sources } } := by
  simp only [setSourceList, hix]

theorem same_setSourceList {ix : Index} (hix : db.indexes[i]? = some ix)
    (sources : List ObjectId) : db.SameCatalog (db.setSourceList i sources) := by
  rw [setSourceList_of_get hix]
  refine ⟨rfl, rfl, rfl, fun _ => rfl, fun _ => rfl, fun j => ?_⟩
  by_cases hj : j = i
  · subst hj
    simp [hix, Index.header]
  · simp [hj]

/-- An index after the list of one has been set: only its sources can be others. -/
theorem index_of_setSourceList {ix : Index} (hix : db.indexes[i]? = some ix) {j : Nat} {jx : Index}
    (hjx : (db.setSourceList i sources).indexes[j]? = some jx) :
    ∃ kx, db.indexes[j]? = some kx ∧ kx.lexicon = jx.lexicon ∧ kx.range = jx.range ∧
      kx.postings = jx.postings ∧ (jx = kx ∨ j = i ∧ jx.sources = sources) := by
  rw [setSourceList_of_get hix, FiniteMap.getElem?_insert] at hjx
  split at hjx
  · rename_i hj
    cases hjx
    exact ⟨ix, hj ▸ hix, rfl, rfl, rfl, .inr ⟨hj, rfl⟩⟩
  · exact ⟨jx, hjx, rfl, rfl, rfl, .inl rfl⟩

theorem isLive_setSourceList {ix : Index} (hix : db.indexes[i]? = some ix)
    (sources : List ObjectId) (table record : Nat) :
    (db.setSourceList i sources).isLive table record = db.isLive table record := by
  rw [setSourceList_of_get hix]
  rfl

theorem WellFormed.posted_setSourceList (h : db.WellFormed) {ix : Index}
    (hix : db.indexes[i]? = some ix) (sources : List ObjectId) :
    (db.setSourceList i sources).Posted where
  neat hjx := by
    obtain ⟨kx, hkx, -, -, hpostings, -⟩ := index_of_setSourceList hix hjx
    exact hpostings ▸ h.posted.neat hkx
  matched hjx hlex := by
    obtain ⟨kx, hkx, hl, -, hpostings, -⟩ := index_of_setSourceList hix hjx
    rw [setSourceList_of_get hix, ← hl] at hlex
    exact hpostings ▸ h.posted.matched hkx hlex
  live hjx term r s q hq := by
    obtain ⟨kx, hkx, -, hrange, hpostings, -⟩ := index_of_setSourceList hix hjx
    rw [isLive_setSourceList hix, ← hrange]
    exact h.posted.live hkx (hpostings ▸ hq)

theorem WellFormed.setSourceList (h : db.WellFormed) {ix : Index}
    (hix : db.indexes[i]? = some ix) (hs : ∀ s ∈ sources, db.checkSource ix.range s = .ok ()) :
    (db.setSourceList i sources).WellFormed := by
  have hsame := same_setSourceList hix sources
  have hsource : ∀ {j : Nat} {jx : Index}, (db.setSourceList i sources).indexes[j]? = some jx →
      ∀ s ∈ jx.sources, db.checkSource jx.range s = .ok () := by
    intro j jx hjx s hmem
    obtain ⟨kx, hkx, -, hrange, -, hcase⟩ := index_of_setSourceList hix hjx
    rcases hcase with rfl | ⟨rfl, hsources⟩
    · exact h.catalogued.source hkx s hmem
    · obtain rfl := Option.some.inj (hix.symm.trans hkx)
      rw [← hrange]
      exact hs s (hsources ▸ hmem)
  have hfilled : (db.setSourceList i sources).Filled := by
    constructor
    · intro id t ht
      rw [setSourceList_of_get hix] at ht
      exact h.filled.sound ht
    · intro column record v hv
      rw [setSourceList_of_get hix] at hv
      obtain ⟨table, valueType, hkind, hr, hv⟩ := h.filled.value hv
      exact ⟨table, valueType, by rwa [hsame.kind?], by rwa [isLive_setSourceList hix], hv⟩
  exact ⟨h.catalogued.of_same hsame hsource, hfilled, h.posted_setSourceList hix sources,
    h.named.of_same hsame⟩

theorem index_eq_ok {ix : Index} : db.index i = .ok ix ↔ db.indexes[i]? = some ix := by
  unfold Database.index
  cases db.indexes[i]? <;> simp

theorem installSources_eq_ok {e : HashOrder} (hok : e.installSources db i sources = .ok db') :
    ∃ ix deltas, db.indexes[i]? = some ix ∧
      (∀ s ∈ sources, db.checkSource ix.range s = .ok ()) ∧
        e.sourceDeltas db ix.sources sources = .ok deltas ∧
          db' = (db.applyDeltas i deltas).setSourceList i sources := by
  obtain ⟨ix, hix, hok⟩ := bind_eq_ok.1 hok
  obtain ⟨_, hcheck, hok⟩ := bind_eq_ok.1 hok
  obtain ⟨deltas, hdeltas, hok⟩ := bind_eq_ok.1 hok
  cases hok
  exact ⟨ix, deltas, index_eq_ok.1 hix, forM_eq_ok.1 hcheck, hdeltas, rfl⟩

/-- The deltas of an index with a new list of sources lead from the old yield to the new one. -/
theorem effectAt_sources {ix : Index} (hix : db.indexes[i]? = some ix) {deltas : List Delta}
    (heffect : ∀ (kx : Index) t r s q n,
      deltas.foldl (fun n delta => delta.effect kx t r s q n) n =
        n - kx.yield db.textsOf (placesLost ix.sources sources) t r s q +
          kx.yield db.textsOf (placesLost sources ix.sources) t r s q)
    (j : Nat) (t : String) (r s q : Nat) :
    db.effectAt (deltas.map (i, ·)) j t r s q (db.producedAt j t r s q) =
      (db.setSourceList i sources).yieldAt db.textsOf j t r s q := by
  simp only [effectAt, producedAt, yieldAt, setSourceList_of_get hix, FiniteMap.getElem?_insert]
  by_cases hj : j = i
  · subst hj
    have hall : (deltas.map (j, ·)).filter (·.1 = j) = deltas.map (j, ·) := by
      refine List.filter_eq_self.2 fun change hc => ?_
      obtain ⟨delta, -, rfl⟩ := List.mem_map.1 hc
      simp
    have hsnd : (deltas.map (j, ·)).map (·.2) = deltas := by
      rw [List.map_map]
      exact List.map_id _
    have hplaces := yield_places ix db.textsOf ix.sources sources t r s q
    have hlost := ix.yield_perm db.textsOf (places_perm ix.sources sources) t r s q
    rw [Index.yield_append] at hlost
    simp only [hix, if_true, hall, hsnd, heffect]
    change _ = ix.yield db.textsOf (sources.zipIdx 1) t r s q
    omega
  · have hnone : (deltas.map (i, ·)).filter (·.1 = j) = [] := by
      refine List.filter_eq_nil_iff.2 fun change hc => ?_
      obtain ⟨delta, -, rfl⟩ := List.mem_map.1 hc
      simpa using Ne.symm hj
    simp only [hj, if_false, hnone]
    cases db.indexes[j]? <;> rfl

theorem storedAt_setSourceList {ix : Index} (hix : db.indexes[i]? = some ix)
    (sources : List ObjectId) : (db.setSourceList i sources).storedAt = db.storedAt := by
  funext j t r s q
  simp only [storedAt, setSourceList_of_get hix, FiniteMap.getElem?_insert]
  by_cases hj : j = i
  · subst hj
    rw [if_pos rfl, hix]
    rfl
  · rw [if_neg hj]
    rfl

theorem frame_setSourceList {ix ix' : Index} (hf : db.Fed db') (hix : db.indexes[i]? = some ix)
    (hix' : db'.indexes[i]? = some ix') (sources : List ObjectId) (j : Nat) :
    (db'.setSourceList i sources).indexes[j]?.map Index.frame =
      (db.setSourceList i sources).indexes[j]?.map Index.frame := by
  rw [setSourceList_of_get hix, setSourceList_of_get hix', FiniteMap.getElem?_insert,
    FiniteMap.getElem?_insert]
  have hframe := hf.frame j
  by_cases hj : j = i
  · subst hj
    rw [hix, hix', Option.map_some, Option.map_some, Option.some.injEq,
      Index.frame_eq_iff] at hframe
    simp [Index.frame, hframe]
  · rwa [if_neg hj, if_neg hj]

/-- The same database, perhaps with more in its lexicons, but for the sources of one index. -/
structure Rewired (db db' : Database) (i : Nat) (sources : List ObjectId) : Prop where
  same : db.SameCatalog db'
  columns : db'.columns = db.columns
  isLive : ∀ {table record : Nat}, db.isLive table record → db'.isLive table record
  givenOut : ∀ {table record : Nat}, db.GivenOut table record → db'.GivenOut table record
  sources : ∀ j : Nat, db'.indexes[j]?.map Index.sources =
    if j = i then some sources else db.indexes[j]?.map Index.sources

theorem Fed.rewired {ix' : Index} (hf : db.Fed db') (hix' : db'.indexes[i]? = some ix')
    (sources : List ObjectId) : db.Rewired (db'.setSourceList i sources) i sources where
  same := hf.same.trans (same_setSourceList hix' sources)
  columns := by
    rw [setSourceList_of_get hix']
    exact hf.columns
  isLive hr := by
    rw [setSourceList_of_get hix']
    exact hf.isLive hr
  givenOut hold := by
    rw [setSourceList_of_get hix']
    exact hf.givenOut hold
  sources j := by
    have hsources : Index.sources ∘ Index.frame = Index.sources := rfl
    have hmap := congrArg (Option.map Index.sources) (hf.frame j)
    rw [Option.map_map, Option.map_map, hsources] at hmap
    rw [setSourceList_of_get hix', FiniteMap.getElem?_insert, apply_ite (Option.map _), hmap]
    rfl

/-- The texts after new sources are those before, but for keys that the index itself added. -/
theorem WellFormed.tracks_setSourceList (h : db.WellFormed) (h' : db'.WellFormed)
    (hf : db.Fed db') {ix' : Index} (hix' : db'.indexes[i]? = some ix')
    (sources : List ObjectId) :
    Tracks ((db'.setSourceList i sources).Settled db.GivenOut) (db'.setSourceList i sources)
      ((db'.setSourceList i sources).yieldAt db.textsOf) (db'.setSourceList i sources)
      (db'.setSourceList i sources).producedAt := by
  have hrewired := hf.rewired hix' sources
  have htexts : ∀ source record,
      (db'.setSourceList i sources).textsOf source record = db'.textsOf source record := by
    intro source record
    rw [setSourceList_of_get hix']
    rfl
  refine Database.tracks_texts (fun source record => ?_) fun {j r} hsettled jx hjx s hs => ?_
  · rw [htexts]
    exact hf.textsOf_cases source record
  · rw [htexts]
    refine h.textsOf_settled h' hf fun t ht => ?_
    obtain ⟨u, hu, -⟩ := hrewired.same.symm.table ht
    refine (hsettled jx hjx s hs u hu).imp_left fun hnot k kx hkx => ?_
    obtain ⟨kx', hkx', hlexicon, -⟩ := hrewired.same.symm.index hkx
    exact hlexicon ▸ hnot k kx' hkx'

/-- Before the keys that the deltas add are counted as texts, the new yield is met exactly. -/
theorem WellFormed.tracks_sources (h : db.WellFormed) {ix : Index}
    (hix : db.indexes[i]? = some ix) {deltas : List Delta}
    (hreceives : ∀ change ∈ deltas.map (i, ·), db.Receives change)
    (heffect : ∀ (kx : Index) t r s q n,
      deltas.foldl (fun n delta => delta.effect kx t r s q n) n =
        n - kx.yield db.textsOf (placesLost ix.sources sources) t r s q +
          kx.yield db.textsOf (placesLost sources ix.sources) t r s q) :
    Tracks (fun _ _ => True) db db.producedAt ((db.applyDeltas i deltas).setSourceList i sources)
      (((db.applyDeltas i deltas).setSourceList i sources).yieldAt db.textsOf) := by
  have hfed := (h.carry hreceives).2
  have hcarry := h.tracks_carry hreceives db.producedAt
  rw [← applyDeltas_eq_carry] at hfed hcarry
  obtain ⟨ix', hix', -⟩ := hfed.index' hix
  rw [yieldAt_of_frames (frame_setSourceList hfed hix hix' sources)]
  intro j t r s q
  obtain ⟨f, hf, hstored, -, heq⟩ := hcarry j t r s q
  have hproduced := (heq trivial).trans (effectAt_sources hix heffect j t r s q)
  refine ⟨f, hf, ?_, Nat.le_of_eq hproduced, fun _ => hproduced⟩
  rw [storedAt_setSourceList hix', hstored]

/-- Sources that pass the check can be installed. -/
theorem WellFormed.installSources_of_check (h : db.WellFormed) (e : HashOrder) {ix : Index}
    (hix : db.indexes[i]? = some ix) (hcheck : ∀ s ∈ sources, db.checkSource ix.range s = .ok ()) :
    ∃ db', e.installSources db i sources = .ok db' := by
  obtain ⟨deltas, hdeltas, -⟩ := h.sourceDeltas e (h.catalogued.source hix) hcheck
  exact ⟨_, bind_eq_ok.2 ⟨ix, index_eq_ok.2 hix, bind_eq_ok.2 ⟨(), forM_eq_ok.2 hcheck,
    bind_eq_ok.2 ⟨deltas, hdeltas, rfl⟩⟩⟩⟩

/-- The deltas of a new list of sources go to live records. -/
theorem WellFormed.receives_sources (h : db.WellFormed) {e : HashOrder} {ix : Index}
    (hix : db.indexes[i]? = some ix) (hcheck : ∀ s ∈ sources, db.checkSource ix.range s = .ok ())
    {deltas : List Delta} (hdeltas : e.sourceDeltas db ix.sources sources = .ok deltas) :
    (∀ change ∈ deltas.map (i, ·), db.Receives change) ∧
      ∀ (kx : Index) t r s q n, deltas.foldl (fun n delta => delta.effect kx t r s q n) n =
        n - kx.yield db.textsOf (placesLost ix.sources sources) t r s q +
          kx.yield db.textsOf (placesLost sources ix.sources) t r s q := by
  obtain ⟨deltas', hdeltas', hlive, heffect⟩ := h.sourceDeltas e (h.catalogued.source hix) hcheck
  obtain rfl := Except.ok.inj (hdeltas.symm.trans hdeltas')
  refine ⟨fun change hc => ?_, heffect⟩
  obtain ⟨delta, hd, rfl⟩ := List.mem_map.1 hc
  exact .of_get hix (hlive delta hd)

/-- Installing sources keeps a database well-formed and follows the texts. -/
theorem WellFormed.installSources (h : db.WellFormed) {e : HashOrder}
    (hok : e.installSources db i sources = .ok db') :
    db'.WellFormed ∧ db.Rewired db' i sources ∧ Follows (db'.Settled db.GivenOut) db db' := by
  obtain ⟨ix, deltas, hix, hcheck, hdeltas, rfl⟩ := installSources_eq_ok hok
  obtain ⟨hreceives, heffect⟩ := h.receives_sources hix hcheck hdeltas
  obtain ⟨hwf, hfed⟩ := h.carry hreceives
  have htracks := h.tracks_sources hix hreceives heffect
  rw [← applyDeltas_eq_carry] at hwf hfed
  obtain ⟨ix', hix', hframe⟩ := hfed.index' hix
  have hcheck' : ∀ s ∈ sources,
      (db.applyDeltas i deltas).checkSource ix'.range s = .ok () := by
    intro s hs
    rw [hfed.same.checkSource, (Index.frame_eq_iff.1 hframe).2.1]
    exact hcheck s hs
  have htexts := h.tracks_setSourceList hwf hfed hix' sources
  exact ⟨hwf.setSourceList hix' hcheck', hfed.rewired hix' sources,
    (htracks.trans htexts).imp fun _ _ hsettled => ⟨trivial, hsettled⟩⟩

end Database
end Concordance
