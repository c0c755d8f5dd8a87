import Concordance.Proofs.SourceOrder

/-! # The order in which indexes lose sources

When an object goes, every index that stays loses the sources that go with it, one index after
another. The sources behind them move up, and their texts are taken out of one section and brought
to another. The terms of these texts are new only to a lexicon that has lost them meanwhile. As long
as no index brings such a term to a lexicon that another of them has for a source, each takes in what
it would have taken in first, so the databases differ by a renaming of new ids.
-/
namespace Concordance

/-- The index without the sources that go. -/
def Index.spare (ix : Index) (gone : List ObjectId) : Index :=
  { ix with sources := ix.sources.filter (!gone.contains ·) }

namespace Database
variable {db db' : Database} {gone indexes indexes' : List ObjectId} {i j : Nat} {ix jx : Index}

/-! ## Lists of sources -/

/-- The database with the sources that go taken off the lists of some indexes, but with the same
postings. -/
def shed (db : Database) (gone indexes : List ObjectId) : Database :=
  { db with
    indexes := db.indexes.map fun i ix => if i ∈ indexes then ix.spare gone else ix }

theorem getElem?_shed (db : Database) (gone indexes : List ObjectId) (i : Nat) :
    (db.shed gone indexes).indexes[i]? =
      db.indexes[i]?.map fun ix => if i ∈ indexes then ix.spare gone else ix :=
  Std.ExtTreeMap.getElem?_map

theorem eq_of_indexes (db : Database) {m : ById Index} (h : ∀ i : Nat, m[i]? = db.indexes[i]?) :
    { db with indexes := m } = db := by
  rw [Std.ExtTreeMap.ext_getElem? h]

theorem shed_nil (db : Database) (gone : List ObjectId) : db.shed gone [] = db :=
  eq_of_indexes db fun i => by simp

theorem shed_congr (h : ∀ i, i ∈ indexes ↔ i ∈ indexes') (db : Database) (gone : List ObjectId) :
    db.shed gone indexes = db.shed gone indexes' := by
  simp only [shed, h]

theorem shed_cons (hi : i ∉ indexes) (db : Database) (gone : List ObjectId) :
    (db.shed gone [i]).shed gone indexes = db.shed gone (i :: indexes) := by
  refine eq_of_indexes (db.shed gone (i :: indexes)) fun j => ?_
  rw [Std.ExtTreeMap.getElem?_map, getElem?_shed, getElem?_shed, Option.map_map]
  congr 1
  funext jx
  by_cases hj : j = i <;> simp_all [List.mem_cons]

theorem setSourceList_spare (hix : db.indexes[i]? = some ix) (gone : List ObjectId) :
    db.setSourceList i (ix.spare gone).sources = db.shed gone [i] := by
  rw [setSourceList_of_get hix]
  refine eq_of_indexes (db.shed gone [i]) fun j => ?_
  rw [FiniteMap.getElem?_insert, getElem?_shed]
  by_cases hj : j = i
  · subst hj
    simp [hix, Index.spare]
  · simp [hj]

theorem applyDelta_shed (db : Database) (gone indexes : List ObjectId) (i : Nat) (delta : Delta) :
    (db.shed gone indexes).applyDelta i delta = (db.applyDelta i delta).shed gone indexes := by
  let spared (i : Nat) (ix : Index) : Index := if i ∈ indexes then ix.spare gone else ix
  have hshed : (db.shed gone indexes).indexes[i]? = db.indexes[i]?.map (spared i) :=
    db.getElem?_shed gone indexes i
  cases hix : db.indexes[i]? with
  | none =>
    rw [hix] at hshed
    rw [applyDelta_of_none hix, applyDelta_of_none hshed]
  | some ix =>
    rw [hix] at hshed
    -- A delta does not look at the list of sources.
    obtain ⟨hlexicon, hchange, hpostings⟩ : (spared i ix).lexicon = ix.lexicon ∧
        (spared i ix).change = ix.change ∧
          ∀ postings, spared i { ix with postings } = { spared i ix with postings } := by
      simp only [spared]
      split <;> exact ⟨rfl, rfl, fun _ => rfl⟩
    cases ht : db.tables[ix.lexicon]? with
    | none =>
      rw [applyDelta_of_noLexicon hix ht,
        applyDelta_of_noLexicon hshed (by rw [hlexicon]; exact ht)]
    | some t =>
      rw [applyDelta_of_get hix ht, applyDelta_of_get hshed (by rw [hlexicon]; exact ht),
        ← hpostings, hchange, hlexicon]
      exact congrArg (fun m => { db with
        tables := db.tables.insert ix.lexicon (ix.change t delta).1
        indexes := m }) (FiniteMap.map_insert db.indexes spared i _).symm

theorem carry_shed (db : Database) (gone indexes : List ObjectId)
    (changes : List (ObjectId × Delta)) :
    (db.shed gone indexes).carry changes = (db.carry changes).shed gone indexes := by
  induction changes generalizing db with
  | nil => rfl
  | cons change rest ih =>
    rw [Database.carry, List.foldl_cons, applyDelta_shed]
    exact ih _

theorem carry_append (db : Database) (changes changes' : List (ObjectId × Delta)) :
    db.carry (changes ++ changes') = (db.carry changes).carry changes' := List.foldl_append ..

theorem WellFormed.shed (h : db.WellFormed) (gone : List ObjectId) (i : ObjectId) :
    (db.shed gone [i]).WellFormed := by
  cases hix : db.indexes[i]? with
  | none =>
    have hsame : db.shed gone [i] = db := eq_of_indexes db fun j => by
      rw [Std.ExtTreeMap.getElem?_map]
      by_cases hj : j = i
      · rw [hj, hix, Option.map_none]
      · simp [hj]
    rwa [hsame]
  | some ix =>
    rw [← setSourceList_spare hix]
    exact h.setSourceList hix fun s hs => h.catalogued.source hix s (List.mem_filter.1 hs).1

theorem Renamed.shed {σ : ObjectId → Equiv.Perm RecordId} (h : db.Renamed σ db')
    (gone indexes : List ObjectId) : (db.shed gone indexes).Renamed σ (db'.shed gone indexes) where
  objects := h.objects
  columns := h.columns
  names := h.names
  nextId := h.nextId
  table := h.table
  noTable := h.noTable
  index {i ix} hix := by
    rw [getElem?_shed, Option.map_eq_some_iff] at hix
    obtain ⟨kx, hkx, rfl⟩ := hix
    obtain ⟨jx, hjx, hrenamed⟩ := h.index hkx
    obtain ⟨hlexicon, hrange, hflags, htokenizer, hsources⟩ := Index.frame_eq_iff.1 hrenamed.frame
    rw [getElem?_shed, hjx, Option.map_some]
    split
    · refine ⟨_, rfl, Index.frame_eq_iff.2 ⟨hlexicon, hrange, hflags, htokenizer, ?_⟩, hrenamed.list⟩
      simp only [Index.spare, hsources]
    · exact ⟨_, rfl, hrenamed⟩
  noIndex {i} hix := by
    rw [getElem?_shed, Option.map_eq_none_iff] at hix ⊢
    exact h.noIndex hix

/-! ## Terms that a lexicon has lost -/

/-- Texts that move to another section of an index have no terms that are new to its lexicon. -/
def KnowsMoved (db : Database) (gone : List ObjectId) (ix : Index) : Prop :=
  ∀ place ∈ placesLost (ix.spare gone).sources ix.sources, ∀ record,
    ∀ term ∈ ix.tokenizer.terms (db.textsOf place.1 record),
      (db.recordId? ix.lexicon term).isSome

/-- No index that loses sources brings new terms to a lexicon that another one has for a source. -/
def Quiet (db : Database) (gone indexes : List ObjectId) : Prop :=
  ∀ i ∈ indexes, ∀ j ∈ indexes, i ≠ j → ∀ ix jx, db.indexes[i]? = some ix →
    db.indexes[j]? = some jx → ix.lexicon ∈ jx.sources → db.KnowsMoved gone ix

theorem Quiet.perm (h : db.Quiet gone indexes) (hperm : indexes.Perm indexes') :
    db.Quiet gone indexes' := fun i hi j hj =>
  h i (hperm.mem_iff.2 hi) j (hperm.mem_iff.2 hj)

end Database

namespace HashOrder
open Database
variable (e e' : HashOrder) {db db₁ : Database} {gone indexes : List ObjectId} {i j : Nat}
  {ix jx : Index}

/-- The deltas that take the sources that go out of an index and move those behind them up. -/
def lossDeltas (db : Database) (gone : List ObjectId) (i : Nat) : List Delta :=
  db.indexes[i]?.elim [] fun ix =>
    (e.sourceDeltas db ix.sources (ix.spare gone).sources).toOption.getD []

theorem lossDeltas_of_get (hix : db.indexes[i]? = some ix) {deltas : List Delta}
    (hdeltas : e.sourceDeltas db ix.sources (ix.spare gone).sources = .ok deltas) :
    e.lossDeltas db gone i = deltas := by
  simp [lossDeltas, hix, hdeltas, Except.toOption]

/-- The database after an index has lost the sources that go. -/
def lose (db : Database) (gone : List ObjectId) (i : Nat) : Database :=
  (db.carry ((e.lossDeltas db gone i).map (i, ·))).shed gone [i]

/-- An index can always be given the sources that it keeps. -/
theorem lossDeltas_spec (h : db.WellFormed) (hix : db.indexes[i]? = some ix)
    (gone : List ObjectId) :
    Delta.Shuffled (ascending.lossDeltas db gone i) (e.lossDeltas db gone i) ∧
      (∀ delta ∈ e.lossDeltas db gone i, db.Receives (i, delta)) ∧
      (∀ delta ∈ e.lossDeltas db gone i, delta.new = [] ∨
        ∃ place ∈ placesLost (ix.spare gone).sources ix.sources,
          delta.new = db.textsOf place.1 delta.record) ∧
      e.installSources db i (ix.spare gone).sources = .ok (e.lose db gone i) := by
  have hcheck : ∀ s ∈ (ix.spare gone).sources, db.checkSource ix.range s = .ok () :=
    fun s hs => h.catalogued.source hix s (List.mem_filter.1 hs).1
  obtain ⟨deltas, deltas', hdeltas, hdeltas', hshuffled, hnew⟩ :=
    e.sourceDeltas_shuffled h (h.catalogued.source hix) hcheck
  obtain ⟨_, _, hd, hd', -, hreceives, hinstall⟩ := e.installSources_shuffled h hix hcheck
  obtain rfl := Except.ok.inj (hdeltas.symm.trans hd)
  obtain rfl := Except.ok.inj (hdeltas'.symm.trans hd')
  have hreceives' : ∀ delta ∈ deltas', db.Receives (i, delta) := fun delta hd =>
    hreceives (i, delta) (List.mem_map_of_mem (hshuffled.perm.mem_iff.2 hd))
  rw [lose, e.lossDeltas_of_get hix hdeltas', ascending.lossDeltas_of_get hix hdeltas]
  refine ⟨hshuffled, hreceives', fun delta hd => hnew delta (hshuffled.perm.mem_iff.2 hd), ?_⟩
  have hfed : db.Fed (db.carry (deltas'.map (i, ·))) :=
    (h.carry (List.forall_mem_map.2 hreceives')).2
  obtain ⟨ix', hix', hframe⟩ := hfed.index' hix
  rw [hinstall, ← setSourceList_spare hix' gone]
  simp only [Index.spare, (Index.frame_eq_iff.1 hframe).2.2.2.2]

section Lose
variable (h : db.WellFormed) (hix : db.indexes[i]? = some ix)
include h hix

theorem wellFormed_lose (gone : List ObjectId) :
    (e.lose db gone i).WellFormed ∧ db.Fed (db.carry ((e.lossDeltas db gone i).map (i, ·))) := by
  obtain ⟨-, hreceives, -⟩ := e.lossDeltas_spec h hix gone
  obtain ⟨hwf, hfed⟩ := h.carry (List.forall_mem_map.2 hreceives)
  exact ⟨hwf.shed gone i, hfed⟩

/-- What one index loses leaves alone every table that gets no new key from it. -/
theorem tables_lose {table : Nat} (hknown : ix.lexicon = table → db.KnowsMoved gone ix) :
    (e.lose db gone i).tables[table]? = db.tables[table]? := by
  obtain ⟨-, hreceives, hnew, -⟩ := e.lossDeltas_spec h hix gone
  change (db.carry _).tables[table]? = _
  rw [h.tables_carry (List.forall_mem_map.2 hreceives)]
  cases ht : db.tables[table]? with
  | none => rfl
  | some t =>
    refine congrArg some (Table.addKeys_of_known fun term hterm => ?_)
    obtain ⟨_, hchange, hterm⟩ := List.mem_flatMap.1 hterm
    obtain ⟨delta, hd, rfl⟩ := List.mem_map.1 hchange
    simp only [hix, Option.elim_some] at hterm
    split at hterm
    · rename_i hlexicon
      rcases hnew delta hd with hnil | ⟨place, hp, htexts⟩
      · simp [hnil, Tokenizer.terms] at hterm
      · have hsome := hknown hlexicon place hp delta.record term (htexts ▸ hterm)
        rwa [hlexicon, recordId?, ht] at hsome
    · cases hterm

theorem frame_lose (gone : List ObjectId) (hj : j ≠ i) :
    (e.lose db gone i).indexes[j]?.map Index.frame = db.indexes[j]?.map Index.frame := by
  rw [← (e.wellFormed_lose h hix gone).2.frame, lose, getElem?_shed]
  simp [hj]

theorem isSome_recordId?_lose (gone : List ObjectId) {table : Nat} {key : String}
    (hkey : (db.recordId? table key).isSome) :
    ((e.lose db gone i).recordId? table key).isSome := by
  have hfed := (e.wellFormed_lose h hix gone).2
  obtain ⟨id, hid⟩ := Option.isSome_iff_exists.1 hkey
  obtain ⟨t, ht, hfind⟩ := Option.bind_eq_some_iff.1 hid
  obtain ⟨u, hu, hgrows⟩ := hfed.table ht
  refine Option.isSome_iff_exists.2 ⟨id, Option.bind_eq_some_iff.2 ⟨u, hu, hgrows.find? hfind⟩⟩

variable (hknown : ix.lexicon ∈ jx.sources → db.KnowsMoved gone ix)
include hknown

theorem held_lose {source : Nat} (hs : source ∈ jx.sources) :
    (e.lose db gone i).columns = db.columns ∧
      (e.lose db gone i).tables[source]? = db.tables[source]? :=
  ⟨(e.wellFormed_lose h hix gone).2.columns,
    e.tables_lose h hix fun hlexicon => hknown (hlexicon ▸ hs)⟩

theorem sourceTexts_lose {source : Nat} (hs : source ∈ jx.sources) :
    e.sourceTexts (e.lose db gone i) source = e.sourceTexts db source := by
  obtain ⟨hcolumns, htables⟩ := e.held_lose h hix hknown hs
  simp only [sourceTexts, hcolumns, htables]

theorem textsOf_lose {source : Nat} (hs : source ∈ jx.sources) :
    (e.lose db gone i).textsOf source = db.textsOf source := by
  obtain ⟨hcolumns, htables⟩ := e.held_lose h hix hknown hs
  funext record
  simp only [textsOf, hcolumns, recordKey?, htables]

theorem lossDeltas_lose (hjx : db.indexes[j]? = some jx) (hj : j ≠ i) :
    e.lossDeltas (e.lose db gone i) gone j = e.lossDeltas db gone j := by
  have hmap := e.frame_lose h hix gone hj
  rw [hjx, Option.map_some, Option.map_eq_some_iff] at hmap
  obtain ⟨jx', hjx', hframe⟩ := hmap
  have hsources := (Index.frame_eq_iff.1 hframe).2.2.2.2
  simp only [lossDeltas, hjx, hjx', Option.elim_some, Index.spare, hsources, sourceDeltas]
  have hplaces : ∀ (make : RecordId → Nat → List String → Delta), ∀ place : ObjectId × Nat,
      place.1 ∈ jx.sources → e.placeDeltas (e.lose db gone i) make place =
        e.placeDeltas db make place := by
    intro make place hp
    simp only [placeDeltas, e.sourceTexts_lose h hix hknown hp]
  rw [mapM_congr fun place hp => hplaces _ place (fst_mem_of_mem_placesLost hp),
    mapM_congr fun place hp => hplaces _ place
      (List.mem_filter.1 (fst_mem_of_mem_placesLost hp)).1]

end Lose

/-- What makes the order of indexes irrelevant lasts while they lose their sources. -/
theorem quiet_lose (h : db.WellFormed) (hix : db.indexes[i]? = some ix)
    (hquiet : db.Quiet gone (i :: indexes)) (hi : i ∉ indexes) :
    (e.lose db gone i).Quiet gone indexes := by
  intro j hj k hk hjk jx' kx' hjx' hkx' hmem place hp record term hterm
  have hj' : j ≠ i := fun heq => hi (heq ▸ hj)
  have hk' : k ≠ i := fun heq => hi (heq ▸ hk)
  have hmap := e.frame_lose h hix gone hj'
  have hmap' := e.frame_lose h hix gone hk'
  rw [hjx', Option.map_some, eq_comm, Option.map_eq_some_iff] at hmap
  rw [hkx', Option.map_some, eq_comm, Option.map_eq_some_iff] at hmap'
  obtain ⟨jx, hjx, hframe⟩ := hmap
  obtain ⟨kx, hkx, hframe'⟩ := hmap'
  obtain ⟨hlexicon, -, -, htokenizer, hsources⟩ := Index.frame_eq_iff.1 hframe
  have hsources' := (Index.frame_eq_iff.1 hframe').2.2.2.2
  have hknown := hquiet j (List.mem_cons_of_mem _ hj) k (List.mem_cons_of_mem _ hk) hjk jx kx hjx
    hkx (by rwa [hlexicon, hsources'])
  simp only [Index.spare, ← hsources] at hp
  rw [e.textsOf_lose h hix (hquiet i (List.mem_cons_self ..) j (List.mem_cons_of_mem _ hj) hj'.symm
    ix jx hix hjx) (List.mem_filter.1 (fst_mem_of_mem_placesLost hp)).1, ← htokenizer] at hterm
  rw [← hlexicon]
  exact e.isSome_recordId?_lose h hix gone (hknown place hp record term hterm)

/-- All indexes together lose what each would have lost first. -/
theorem detach_eq (h : db.WellFormed) (hnodup : indexes.Nodup)
    (hindexes : ∀ i ∈ indexes, ∃ ix, db.indexes[i]? = some ix) (hquiet : db.Quiet gone indexes) :
    e.detach db gone indexes =
      (.ok (), (db.carry (changesOf indexes (e.lossDeltas db gone))).shed gone indexes) := by
  induction indexes generalizing db with
  | nil =>
    rw [shed_nil]
    rfl
  | cons i rest ih =>
    obtain ⟨hi, hrest⟩ := List.nodup_cons.1 hnodup
    obtain ⟨ix, hix⟩ := hindexes i (List.mem_cons_self ..)
    obtain ⟨hwf, -⟩ := e.wellFormed_lose h hix gone
    have hne : ∀ j ∈ rest, j ≠ i := fun j hj heq => hi (heq ▸ hj)
    have hindexes' : ∀ j ∈ rest, ∃ jx, (e.lose db gone i).indexes[j]? = some jx := by
      intro j hj
      obtain ⟨jx, hjx⟩ := hindexes j (List.mem_cons_of_mem _ hj)
      have hmap := e.frame_lose h hix gone (hne j hj)
      rw [hjx, Option.map_some, Option.map_eq_some_iff] at hmap
      obtain ⟨jx', hjx', -⟩ := hmap
      exact ⟨jx', hjx'⟩
    -- The induction runs from the database that the first index leaves; what the others lose is
    -- the same there as at the start.
    have hsame : changesOf rest (e.lossDeltas (e.lose db gone i) gone) =
        changesOf rest (e.lossDeltas db gone) := by
      refine List.flatMap_congr fun j hj => ?_
      obtain ⟨jx, hjx⟩ := hindexes j (List.mem_cons_of_mem _ hj)
      rw [e.lossDeltas_lose h hix (hquiet i (List.mem_cons_self ..) j (List.mem_cons_of_mem _ hj)
        (hne j hj).symm ix jx hix hjx) hjx (hne j hj)]
    have hdetach := ih hwf hrest hindexes' (e.quiet_lose h hix hquiet hi)
    have hinstall : e.installSources db i (ix.sources.filter (!gone.contains ·)) =
        .ok (e.lose db gone i) := (e.lossDeltas_spec h hix gone).2.2.2
    simp only [detach, hix, Option.map_some, Option.getD_some, hinstall]
    rw [hdetach, hsame, lose, carry_shed, shed_cons hi, ← carry_append]
    rfl

/-! ## Removing an object -/

theorem nodup_bereft (db : Database) (gone : List ObjectId) : (db.bereft gone).Nodup :=
  (FiniteMap.nodup_keys db.indexes).sublist (List.filter_sublist.map _)

/-- Removing an object comes to one carrying of changes, in every order. -/
theorem removeObject_eq (h : db.WellFormed) {id : Nat} (hgone : db.doomed id = .ok gone)
    (hquiet : db.Quiet gone (db.bereft gone)) : e.removeObject db id =
    (.ok (), gone.foldl Database.drop ((db.carry (changesOf (e.bereft db gone)
      (e.lossDeltas db gone))).shed gone (db.bereft gone))) := by
  have hperm := e.bereft_perm db gone
  have hdoomed : e.doomed db id = .ok gone := (e.doomed_eq_ok_iff db id).2 hgone
  have hdetach := e.detach_eq h (hperm.nodup_iff.2 (nodup_bereft db gone))
    (fun i hi => index_of_mem_bereft (hperm.mem_iff.1 hi)) (hquiet.perm hperm.symm)
  simp only [removeObject, hdoomed, hdetach, shed_congr fun i => hperm.mem_iff]

theorem reordered_loss (h : db.WellFormed) (gone : List ObjectId) :
    db.Reordered (changesOf (e.bereft db gone) (e.lossDeltas db gone))
      (changesOf (e'.bereft db gone) (e'.lossDeltas db gone)) := by
  have hperm := e.bereft_perm db gone
  have hget : ∀ i ∈ e.bereft db gone, ∃ ix, db.indexes[i]? = some ix := fun i hi =>
    index_of_mem_bereft (hperm.mem_iff.1 hi)
  refine reordered_changesOf (hperm.trans (e'.bereft_perm db gone).symm)
    (hperm.nodup_iff.2 (nodup_bereft db gone)) (fun i hi => ?_) fun change hc => ?_
  · obtain ⟨ix, hix⟩ := hget i hi
    exact (e.lossDeltas_spec h hix gone).1.symm_trans (e'.lossDeltas_spec h hix gone).1
  · obtain ⟨i, hi, hc⟩ := List.mem_flatMap.1 hc
    obtain ⟨delta, hd, rfl⟩ := List.mem_map.1 hc
    obtain ⟨ix, hix⟩ := hget i hi
    exact (e.lossDeltas_spec h hix gone).2.1 delta hd

/-- An object can be removed in any order, unless an index that loses a source brings new terms to a
lexicon that another such index has for a source. -/
theorem removeObject_agree (h : db.WellFormed) (id : ObjectId)
    (hquiet : ∀ gone, db.doomed id = .ok gone → db.Quiet gone (db.bereft gone)) :
    db.Agree (e.removeObject db id) (e'.removeObject db id) := by
  cases hgone : db.doomed id with
  | error err =>
    have hrefused (o : HashOrder) : ∃ err, o.removeObject db id = (.error err, db) := by
      have hoption := o.doomed_toOption db id
      rw [hgone] at hoption
      cases hdoomed : o.doomed db id with
      | error err' => exact ⟨err', by simp only [removeObject, hdoomed]⟩
      | ok gone =>
        rw [hdoomed] at hoption
        cases hoption
    obtain ⟨_, hrefused₁⟩ := hrefused e
    obtain ⟨_, hrefused₂⟩ := hrefused e'
    rw [hrefused₁, hrefused₂]
    exact .of_refusal ..
  | ok gone =>
    have hquiet := hquiet gone hgone
    have hreordered := e.reordered_loss e' h gone
    obtain ⟨σ, hrenamed, hmoved⟩ := h.renamedSince_carry hreordered
    have hwf := (h.carry hreordered.receives).1
    rw [e.removeObject_eq h hgone hquiet, e'.removeObject_eq h hgone hquiet]
    have hdropped := dropped_foldl ((db.carry (changesOf (e.bereft db gone)
      (e.lossDeltas db gone))).shed gone (db.bereft gone)) gone
    refine RenamedSince.agree ⟨σ, (hrenamed.shed gone _).foldl_drop gone, ?_⟩ rfl ?_
    · intro table record hne
      obtain ⟨hold, hnew⟩ := hmoved table record hne
      refine ⟨hold, fun t ht => hnew t ?_⟩
      rw [hdropped.tables] at ht
      split at ht
      · cases ht
      · exact ht
    · intro i ix hix
      have hix := (hdropped.index_kept hix).2
      rw [getElem?_shed, Option.map_eq_some_iff] at hix
      obtain ⟨jx, hjx, rfl⟩ := hix
      have hneat := hwf.posted.neat hjx
      split <;> exact hneat

end HashOrder
end Concordance
