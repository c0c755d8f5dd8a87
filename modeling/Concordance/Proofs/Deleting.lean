import Concordance.Proofs.Storing

/-! # Deleting records

A record leaves in three steps: its values go out of the columns and the indexes they feed, its key
out of the indexes that the table feeds, and the record itself out of the table and whatever
postings are left. In a well-formed database no step can fail.
-/
namespace Concordance.Database
variable {db db' : Database} {table column record : Nat}

/-! ## Values -/

/-- The same database but for values that have gone and what the indexes said of them. -/
structure Cleared (db db' : Database) : Prop where
  same : db.SameCatalog db'
  isLive : ∀ {table record : Nat}, db.isLive table record → db'.isLive table record
  givenOut : ∀ {table record : Nat}, db.GivenOut table record → db'.GivenOut table record
  frame : ∀ i : Nat, db'.indexes[i]?.map Index.frame = db.indexes[i]?.map Index.frame
  value : ∀ {column record : Nat} {v}, db'.value? column record = some v →
    db.value? column record = some v

theorem Cleared.refl (db : Database) : db.Cleared db :=
  ⟨.refl db, fun h => h, fun h => h, fun _ => rfl, fun h => h⟩

theorem Cleared.trans {db'' : Database} (h : db.Cleared db') (h' : db'.Cleared db'') :
    db.Cleared db'' :=
  ⟨h.same.trans h'.same, fun hr => h'.isLive (h.isLive hr),
    fun hold => h'.givenOut (h.givenOut hold), fun i => (h'.frame i).trans (h.frame i),
    fun hv => h.value (h'.value hv)⟩

theorem Cleared.settled (h : db.Cleared db') {known : Nat → Nat → Prop} {i r : Nat}
    (hsettled : db'.Settled known i r) : db.Settled known i r :=
  hsettled.of_frames h.same h.frame

theorem Cleared.none (h : db.Cleared db') (hv : db.value? column record = none) :
    db'.value? column record = none := by
  cases hv' : db'.value? column record with
  | none => rfl
  | some v =>
    rw [h.value hv'] at hv
    cases hv

theorem eraseValue_of_get {values : Column} (hvalues : db.columns[column]? = some values) :
    db.eraseValue column record = db.withColumn column (values.erase record) := by
  simp only [eraseValue, hvalues, Database.withColumn]

/-- What a column still holds once the value of a record is gone. -/
theorem WellFormed.indexable_erase (h : db.WellFormed) (record : Nat) {values : Column}
    {valueType : DataType} (hvalues : db.columns[column]? = some values)
    (hkind : db.kind? column = some (.column table valueType)) {r : Nat} {w : Json}
    (hw : (values.erase record)[r]? = some w) : db.isLive table r ∧ w.Indexable valueType := by
  rw [FiniteMap.getElem?_erase] at hw
  split at hw
  · cases hw
  · exact h.value_of_kind hvalues hkind hw

/-- One value goes, with its texts. -/
theorem WellFormed.retractValue (h : db.WellFormed) {valueType : DataType} {v : Json}
    (hkind : db.kind? column = some (.column table valueType)) (hr : db.isLive table record)
    (hv : db.value? column record = some v) :
    let erased := db.eraseValue column record
    let db' := erased.feed (erased.fedBy column) record v.texts []
    db'.WellFormed ∧ db.Cleared db' ∧ db'.value? column record = none ∧
      Follows (db'.Settled db.GivenOut) db db' := by
  obtain ⟨values, hvalues, hget⟩ := value?_eq_some.1 hv
  have hother : ∀ r, r ≠ record → (values.erase record)[r]? = values[r]? := by
    intro r hr
    rw [FiniteMap.getElem?_erase, if_neg hr]
  have hold : v.texts = db.textsOf column record := by
    simp [textsOf, hvalues, hget]
  have hnew : [] = ((values.erase record)[record]?.map Json.texts).getD [] := by simp
  obtain ⟨hwf, hfed, hfollows⟩ := h.feed_withColumn hvalues hkind
    (h.indexable_erase record hvalues hkind) hother hr hold hnew
  rw [eraseValue_of_get hvalues]
  have hvalue? : ∀ c r, ((db.withColumn column (values.erase record)).feed
      ((db.withColumn column (values.erase record)).fedBy column) record v.texts []).value? c r =
        if c = column then (values.erase record)[r]? else db.value? c r := by
    intro c r
    rw [← value?_withColumn]
    simp only [value?, hfed.columns]
  refine ⟨hwf, ⟨(same_withColumn hvalues).trans hfed.same, hfed.isLive, hfed.givenOut,
    hfed.frame, ?_⟩, ?_, hfollows⟩
  · intro c r w hw
    rw [hvalue?, FiniteMap.getElem?_erase] at hw
    split at hw
    · rename_i hc
      split at hw
      · cases hw
      · exact value?_eq_some.2 ⟨values, hc ▸ hvalues, hw⟩
    · exact hw
  · rw [hvalue?, if_pos rfl, FiniteMap.getElem?_erase, if_pos rfl]

/-- The values of a record go from columns of its table, one after another. -/
theorem WellFormed.retractValues (h : db.WellFormed) {columns : List ObjectId}
    (hcolumns : ∀ c ∈ columns, ∃ valueType, db.kind? c = some (.column table valueType))
    (hr : db.isLive table record) :
    ∃ db', db.retractValues record columns = (.ok (), db') ∧ db'.WellFormed ∧ db.Cleared db' ∧
      (∀ c ∈ columns, db'.value? c record = none) ∧ Follows (db'.Settled db.GivenOut) db db' := by
  induction columns generalizing db with
  | nil => exact ⟨db, rfl, h, .refl db, by simp, .refl db⟩
  | cons column rest ih =>
    unfold Database.retractValues
    cases hv : db.value? column record with
    | none =>
      obtain ⟨db', hcall, hwf, hcleared, hnone, hfollows⟩ :=
        ih h (fun c hc => hcolumns c (List.mem_cons_of_mem _ hc)) hr
      refine ⟨db', hcall, hwf, hcleared, ?_, hfollows⟩
      intro c hc
      rcases List.mem_cons.1 hc with rfl | hc
      · exact hcleared.none hv
      · exact hnone c hc
    | some v =>
      obtain ⟨valueType, hkind⟩ := hcolumns column (List.mem_cons_self ..)
      obtain ⟨values, hvalues, hget⟩ := value?_eq_some.1 hv
      have htexts := (h.value_of_kind hvalues hkind hget).2.indexTexts
      obtain ⟨hwf₁, hcleared₁, hnone₁, hfollows₁⟩ := h.retractValue hkind hr hv
      have hcolumns₁ := fun c hc => hcolumns c (List.mem_cons_of_mem column hc)
      simp only [← hcleared₁.same.kind?] at hcolumns₁
      obtain ⟨db', hcall, hwf, hcleared, hnone, hfollows⟩ :=
        ih hwf₁ hcolumns₁ (hcleared₁.isLive hr)
      refine ⟨db', ?_, hwf, hcleared₁.trans hcleared, ?_, ?_⟩
      · dsimp only
        rw [htexts]
        exact hcall
      · intro c hc
        rcases List.mem_cons.1 hc with rfl | hc
        · exact hcleared.none hnone₁
        · exact hnone c hc
      · exact (hfollows₁.trans hfollows).imp fun _ _ hsettled =>
          ⟨hcleared.settled hsettled, hsettled.imp fun _ => hcleared₁.givenOut⟩

theorem mem_columnsOf {c : Nat} : c ∈ db.columnsOf table ↔
    ∃ valueType, db.kind? c = some (.column table valueType) := by
  simp only [columnsOf, List.mem_filterMap, kind?, Option.map_eq_some_iff]
  constructor
  · rintro ⟨⟨id, info⟩, hmem, hinfo⟩
    have hget := Std.ExtTreeMap.mem_toList_iff_getElem?_eq_some.1 hmem
    dsimp only at hinfo
    split at hinfo
    · rename_i owner valueType hkind
      split at hinfo
      · rename_i howner
        cases hinfo
        exact ⟨valueType, info, hget, howner ▸ hkind⟩
      · cases hinfo
    · cases hinfo
  · rintro ⟨valueType, info, hget, hkind⟩
    refine ⟨(c, info), Std.ExtTreeMap.mem_toList_iff_getElem?_eq_some.2 hget, ?_⟩
    simp only [hkind, if_true]

/-! ## The key -/

/-- An index that a table feeds with its keys is over the table. -/
theorem WellFormed.isLive_of_source (h : db.WellFormed) {t : Table}
    (ht : db.tables[table]? = some t) (hr : t.isLive record) {range : Nat}
    (hs : db.checkSource range table = .ok ()) : db.isLive range record := by
  rw [← h.catalogued.eq_of_checkSource ht hs, isLive_of_table ht]
  exact hr

theorem WellFormed.tracks_retractKey (h : db.WellFormed) {t : Table}
    (ht : db.tables[table]? = some t) (hr : t.isLive record) :
    (db.retractKey table record).WellFormed ∧ db.Fed (db.retractKey table record) ∧
      Tracks (fun _ _ => True) db db.producedAt (db.retractKey table record)
        ((db.retractKey table record).yieldAt (changeTexts db.textsOf table record [])) := by
  have htexts := h.catalogued.textsOf_table ht record
  have hkey : db.recordKey? table record = t.key? record := by
    simp only [recordKey?, ht]
    rfl
  unfold Database.retractKey
  rw [hkey]
  cases hk : t.key? record with
  | none =>
    have hsame : changeTexts db.textsOf table record [] = db.textsOf := by
      funext s r
      simp only [changeTexts]
      split
      · rename_i hc
        rw [hc.1, hc.2, htexts, hk]
        rfl
      · rfl
    dsimp only
    rw [hsame]
    exact ⟨h, .refl db, .of_stored (fun _ _ _ _ _ => rfl) (fun _ _ _ _ _ => Nat.le_refl _)
      fun _ _ _ _ _ _ => rfl⟩
  | some key =>
    have hold : db.textsOf table record = [key] := by
      rw [htexts, hk]
      rfl
    obtain ⟨hwf, hfed⟩ := h.feed (fun _ => h.isLive_of_source ht hr) [key] []
    have htracks := h.tracks_feed (fun _ => h.isLive_of_source ht hr) db.textsOf []
    rw [hold] at htracks
    exact ⟨hwf, hfed, htracks⟩

/-! ## The record -/

theorem positions_forgetIn {ix : Index} (hn : ix.postings.Neat) (term r s : Nat) :
    (forgetIn table record ix).postings.positions term r s =
      if (ix.range = table ∧ r = record) ∨ (ix.lexicon = table ∧ term = record) then []
      else ix.postings.positions term r s := by
  by_cases hrange : ix.range = table <;> by_cases hlexicon : ix.lexicon = table <;>
    by_cases hr : r = record <;> by_cases hterm : term = record <;>
    simp [forgetIn, Postings.positions_removeTerm, hn.positions_removeRecord, *]

theorem neat_forgetIn {ix : Index} (h : ix.postings.Neat) :
    (forgetIn table record ix).postings.Neat := by
  have hrecord : (if ix.range = table then ix.postings.removeRecord record
      else ix.postings).Neat := by
    split
    · exact h.removeRecord record
    · exact h
  simp only [forgetIn]
  split
  · exact hrecord.removeTerm record
  · exact hrecord

theorem indexes_forgetRecord (db : Database) (table record i : Nat) :
    (db.forgetRecord table record).indexes[i]? =
      db.indexes[i]?.map (forgetIn table record) := by
  simp [forgetRecord]

theorem tables_forgetRecord {t : Table} (ht : db.tables[table]? = some t) (record id : Nat) :
    (db.forgetRecord table record).tables[id]? =
      if id = table then some (t.erase record) else db.tables[id]? := by
  simp [forgetRecord, ht]

theorem frame_forgetRecord (db : Database) (table record i : Nat) :
    (db.forgetRecord table record).indexes[i]?.map Index.frame =
      db.indexes[i]?.map Index.frame := by
  rw [indexes_forgetRecord, Option.map_map]
  rfl

theorem isLive_forgetRecord {t : Table} (ht : db.tables[table]? = some t) (id r : Nat) :
    (db.forgetRecord table record).isLive id r ↔
      db.isLive id r ∧ ¬ (id = table ∧ r = record) := by
  simp only [isLive, tables_forgetRecord ht]
  by_cases hid : id = table
  · subst hid
    simp [ht, Table.isLive_erase, and_comm]
  · simp [hid]

theorem same_forgetRecord {t : Table} (ht : db.tables[table]? = some t) (record : Nat) :
    db.SameCatalog (db.forgetRecord table record) := by
  refine ⟨rfl, rfl, rfl, fun id => ?_, fun _ => rfl, fun i => ?_⟩
  · rw [tables_forgetRecord ht]
    split
    · rename_i hid
      rw [hid, ht, Option.map_some, Option.map_some, Table.kind_erase]
    · rfl
  · rw [indexes_forgetRecord, Option.map_map]
    rfl

theorem index_of_forgetRecord {i : Nat} {ix : Index}
    (hix : (db.forgetRecord table record).indexes[i]? = some ix) :
    ∃ jx, db.indexes[i]? = some jx ∧ ix = forgetIn table record jx := by
  rw [indexes_forgetRecord, Option.map_eq_some_iff] at hix
  obtain ⟨jx, hjx, rfl⟩ := hix
  exact ⟨jx, hjx, rfl⟩

theorem WellFormed.filled_forgetRecord (h : db.WellFormed) {t : Table}
    (ht : db.tables[table]? = some t)
    (hnone : ∀ c valueType, db.kind? c = some (.column table valueType) →
      db.value? c record = none) : (db.forgetRecord table record).Filled where
  sound {id u} hu := by
    rw [tables_forgetRecord ht] at hu
    split at hu
    · cases hu
      exact (h.filled.sound ht).erase record
    · exact h.filled.sound hu
  value {c r v} hv := by
    obtain ⟨owner, valueType, hkind, hr, hindexable⟩ := h.filled.value hv
    have hkind' := (same_forgetRecord ht record).kind? c
    have hlive : (db.forgetRecord table record).isLive owner r := by
      refine (isLive_forgetRecord ht owner r).2 ⟨hr, ?_⟩
      rintro ⟨rfl, rfl⟩
      have hgone := hnone c valueType hkind
      change db.value? c r = some v at hv
      rw [hgone] at hv
      cases hv
    exact ⟨owner, valueType, hkind'.trans hkind, hlive, hindexable⟩

/-- Postings of the record, as a record and as a term, are gone; no other place has changed. -/
theorem WellFormed.posted_forgetRecord (h : db.WellFormed) {t : Table}
    (ht : db.tables[table]? = some t) : (db.forgetRecord table record).Posted where
  neat hix := by
    obtain ⟨jx, hjx, rfl⟩ := index_of_forgetRecord hix
    exact neat_forgetIn (h.posted.neat hjx)
  matched {i ix lexicon} hix hlex := by
    have hsound := h.filled.sound ht
    obtain ⟨jx, hjx, rfl⟩ := index_of_forgetRecord hix
    change (db.forgetRecord table record).tables[jx.lexicon]? = some lexicon at hlex
    rw [tables_forgetRecord ht] at hlex
    split at hlex
    · -- The table is the lexicon: the record is no term any more, and has no list either.
      rename_i hid
      cases hlex
      have hm := h.posted.matched hjx (hid ▸ ht)
      refine ⟨hsound.erase record, by rw [Table.kind_erase]; exact hm.hasKey, ?_⟩
      intro id r s q hq
      rw [positions_forgetIn (h.posted.neat hjx)] at hq
      split at hq
      · cases hq
      · rename_i hcase
        have hne : id ≠ record := fun he => hcase (.inr ⟨hid, he⟩)
        rw [hsound.key?_erase, if_neg hne]
        exact hm.key hq
    · have hm := h.posted.matched hjx hlex
      refine ⟨hm.sound, hm.hasKey, fun {id r s q} hq => ?_⟩
      rw [positions_forgetIn (h.posted.neat hjx)] at hq
      split at hq
      · cases hq
      · exact hm.key hq
  live {i ix} hix term r s q hq := by
    obtain ⟨jx, hjx, rfl⟩ := index_of_forgetRecord hix
    rw [positions_forgetIn (h.posted.neat hjx)] at hq
    split at hq
    · cases hq
    · rename_i hcase
      obtain ⟨hr, hle⟩ := h.posted.live hjx hq
      exact ⟨(isLive_forgetRecord ht jx.range r).2 ⟨hr, fun hc => hcase (.inl hc)⟩, hle⟩

/-- A record without values is forgotten without a trace. -/
theorem WellFormed.forgetRecord (h : db.WellFormed) {t : Table}
    (ht : db.tables[table]? = some t)
    (hnone : ∀ c valueType, db.kind? c = some (.column table valueType) →
      db.value? c record = none) : (db.forgetRecord table record).WellFormed := by
  have hsame := same_forgetRecord ht record
  have hcatalogued : (db.forgetRecord table record).Catalogued := by
    apply h.catalogued.of_same hsame
    intro i ix hix
    obtain ⟨jx, hjx, rfl⟩ := index_of_forgetRecord hix
    have hsource := h.catalogued.source hjx
    exact hsource
  exact ⟨hcatalogued, h.filled_forgetRecord ht hnone, h.posted_forgetRecord ht,
    h.named.of_same hsame⟩

/-- Whether a table is the lexicon of an index. -/
def IsLexicon (db : Database) (table : ObjectId) : Prop :=
  ∃ (i : Nat) (ix : Index), db.indexes[i]? = some ix ∧ ix.lexicon = table

/-- The terms of this index are records of the table. -/
def IsLexiconOf (db : Database) (i : Nat) (table : ObjectId) : Prop :=
  ∃ ix, db.indexes[i]? = some ix ∧ ix.lexicon = table

theorem WellFormed.stored_forgetRecord (h : db.WellFormed) {t : Table}
    (ht : db.tables[table]? = some t) (record : Nat) {ix : Index} (hn : ix.postings.Neat)
    (term : String) (r s q : Nat) :
    (db.forgetRecord table record).stored (forgetIn table record ix) term r s q =
      if (ix.range = table ∧ r = record) ∨ (ix.lexicon = table ∧ t.key? record = some term) then 0
      else db.stored ix term r s q := by
  have hsound := h.filled.sound ht
  by_cases hlexicon : ix.lexicon = table
  · have hlex : db.tables[ix.lexicon]? = some t := hlexicon ▸ ht
    have hlex' : (db.forgetRecord table record).tables[(forgetIn table record ix).lexicon]? =
        some (t.erase record) := by
      change (db.forgetRecord table record).tables[ix.lexicon]? = _
      rw [tables_forgetRecord ht, if_pos hlexicon]
    rw [stored_eq_tally _ hlex', stored_eq_tally _ hlex, tally, tally, hsound.find?_erase]
    by_cases hkey : t.key? record = some term
    · simp [hkey, hlexicon]
    · simp only [hkey, if_false, and_false, or_false]
      cases hfind : t.find? term with
      | none => simp
      | some id =>
        have hne : id ≠ record := by
          rintro rfl
          exact hkey (hsound.find?_iff.1 hfind)
        dsimp only
        rw [positions_forgetIn hn]
        by_cases hrange : ix.range = table ∧ r = record <;> simp [hrange, hne]
  · have hlex : (db.forgetRecord table record).recordId? (forgetIn table record ix).lexicon term =
        db.recordId? ix.lexicon term := by
      change (db.forgetRecord table record).recordId? ix.lexicon term = _
      simp only [recordId?, tables_forgetRecord ht, if_neg hlexicon]
    simp only [stored, hlex, hlexicon, false_and, or_false]
    cases db.recordId? ix.lexicon term with
    | none => simp
    | some id =>
      dsimp only
      rw [positions_forgetIn hn]
      by_cases hrange : ix.range = table ∧ r = record <;> simp [hrange, hlexicon]

/-- Once no source yields anything for a record, forgetting it follows the texts, unless it is a
term: then its list goes whatever the texts are. -/
theorem WellFormed.tracks_forgetRecord (h : db.WellFormed) {t : Table}
    (ht : db.tables[table]? = some t) {texts : Nat → Nat → List String}
    (htexts : ∀ {i : Nat} {ix}, db.indexes[i]? = some ix → ix.range = table →
      ∀ s ∈ ix.sources, texts s record = []) :
    Tracks (fun i _ => ¬ db.IsLexiconOf i table) db (db.yieldAt texts)
      (db.forgetRecord table record) ((db.forgetRecord table record).yieldAt texts) := by
  rw [yieldAt_of_frames (frame_forgetRecord db table record)]
  intro i term r s q
  cases hix : db.indexes[i]? with
  | none =>
    refine ⟨id, fun _ _ hmn => hmn, ?_, Nat.le_refl _, fun _ => rfl⟩
    simp only [storedAt, indexes_forgetRecord, hix]
    rfl
  | some ix =>
    have hstored := h.stored_forgetRecord ht record (h.posted.neat hix) term r s q
    by_cases hcase : (ix.range = table ∧ r = record) ∨
        (ix.lexicon = table ∧ t.key? record = some term)
    · rw [if_pos hcase] at hstored
      refine ⟨fun _ => 0, fun _ _ _ => Nat.le_refl _, ?_, Nat.zero_le _, ?_⟩
      · simp only [storedAt, indexes_forgetRecord, hix]
        exact hstored
      · intro hnot
        rcases hcase with ⟨hrange, rfl⟩ | ⟨hlexicon, -⟩
        · simp only [yieldAt, hix]
          refine (Index.yield_eq_zero (fun place hp => ?_) term s q).symm
          exact htexts hix hrange place.1 (List.fst_mem_of_mem_zipIdx hp)
        · exact absurd ⟨ix, hix, hlexicon⟩ hnot
    · rw [if_neg hcase] at hstored
      refine ⟨id, fun _ _ hmn => hmn, ?_, Nat.le_refl _, fun _ => rfl⟩
      simp only [storedAt, indexes_forgetRecord, hix]
      exact hstored

/-! ## The whole call -/

theorem WellFormed.textsOf_forgetRecord (h : db.WellFormed) {t : Table}
    (ht : db.tables[table]? = some t) :
    (db.forgetRecord table record).textsOf = changeTexts db.textsOf table record [] := by
  funext s r
  simp only [changeTexts]
  by_cases hs : s = table
  · subst hs
    have hcolumn : (db.forgetRecord s record).columns[s]? = none :=
      h.catalogued.no_column_of_table ht
    have hkey : (db.forgetRecord s record).recordKey? s r = (t.erase record).key? r := by
      simp only [recordKey?, tables_forgetRecord ht, if_pos]
      rfl
    rw [h.catalogued.textsOf_table ht]
    simp only [textsOf, hcolumn, hkey, (h.filled.sound ht).key?_erase, true_and]
    split <;> rfl
  · simp only [hs, false_and, if_false, textsOf, recordKey?, tables_forgetRecord ht]
    rfl

theorem textsOf_of_value_none {valueType : DataType} (h : db.Catalogued)
    (hkind : db.kind? column = some (.column table valueType))
    (hv : db.value? column record = none) : db.textsOf column record = [] := by
  obtain ⟨⟨values, hvalues⟩, -⟩ := h.columnData hkind
  simp only [value?, hvalues] at hv
  simp only [textsOf, hvalues]
  change values[record]? = none at hv
  rw [hv]
  rfl

/-- A source of the range yields nothing for a record without values once its key is retracted. -/
theorem WellFormed.changeTexts_eq_nil (h : db.WellFormed)
    (hnone : ∀ c valueType, db.kind? c = some (.column table valueType) →
      db.value? c record = none) {source : Nat} (hs : db.checkSource table source = .ok ()) :
    changeTexts db.textsOf table record [] source record = [] := by
  simp only [changeTexts]
  split
  · rfl
  · rename_i hne
    rcases checkSource_eq_ok.1 hs with ⟨valueType, hkind⟩ | ⟨heq, -⟩
    · exact textsOf_of_value_none h.catalogued hkind (hnone source valueType hkind)
    · exact absurd ⟨heq, trivial⟩ hne

/-- What the texts are after the record is forgotten: those that were there, as far as no index was
fed while the key was retracted. -/
theorem WellFormed.tracks_texts_forgetRecord (h : db.WellFormed) (h' : db'.WellFormed)
    (hf : db.Fed db') {t : Table} (ht : db'.tables[table]? = some t) (record : Nat) :
    Tracks ((db'.forgetRecord table record).Settled db.GivenOut) (db'.forgetRecord table record)
      ((db'.forgetRecord table record).yieldAt (changeTexts db.textsOf table record []))
      (db'.forgetRecord table record) (db'.forgetRecord table record).producedAt := by
  have hframe : ∀ i : Nat, (db'.forgetRecord table record).indexes[i]?.map Index.frame =
      db.indexes[i]?.map Index.frame := by
    intro i
    rw [frame_forgetRecord, hf.frame]
  have hsame := hf.same.trans (same_forgetRecord ht record)
  refine Database.tracks_texts (fun s r => ?_) fun {i r} hsettled ix hix s hs => ?_
  · rw [h'.textsOf_forgetRecord ht]
    simp only [changeTexts]
    split
    · exact .inl rfl
    · exact hf.textsOf_cases s r
  · rw [h'.textsOf_forgetRecord ht]
    obtain ⟨jx, hjx, hjxframe⟩ := index_of_frames hframe hix
    have hsources := (Index.frame_eq_iff.1 hjxframe).2.2.2.2
    simp only [changeTexts]
    split
    · rfl
    · refine h.textsOf_settled h' hf fun t ht => ?_
      exact hsettled.of_frames hsame hframe jx hjx s (hsources ▸ hs) t ht

/-- Retracting the key of a record without values, and then forgetting it, follows the texts. -/
theorem WellFormed.retractKey_forgetRecord (h : db.WellFormed) {t : Table}
    (ht : db.tables[table]? = some t) (hr : t.isLive record)
    (hnone : ∀ c valueType, db.kind? c = some (.column table valueType) →
      db.value? c record = none) :
    ((db.retractKey table record).forgetRecord table record).WellFormed ∧
      db.SameCatalog ((db.retractKey table record).forgetRecord table record) ∧
      (∀ i : Nat, ((db.retractKey table record).forgetRecord table record).indexes[i]?.map
        Index.frame = db.indexes[i]?.map Index.frame) ∧
      Follows (fun i r => ((db.retractKey table record).forgetRecord table record).Settled
        db.GivenOut i r ∧ ¬ db.IsLexiconOf i table) db
        ((db.retractKey table record).forgetRecord table record) := by
  obtain ⟨hwf, hfed, htracks⟩ := h.tracks_retractKey ht hr
  obtain ⟨u, hu, hg⟩ := hfed.table ht
  have hnone' : ∀ c valueType, (db.retractKey table record).kind? c =
      some (.column table valueType) → (db.retractKey table record).value? c record = none := by
    intro c valueType hkind
    rw [hfed.same.kind?] at hkind
    have hv := hnone c valueType hkind
    simpa only [value?, hfed.columns] using hv
  have hempty : ∀ {i : Nat} {ix}, (db.retractKey table record).indexes[i]? = some ix →
      ix.range = table → ∀ s ∈ ix.sources,
        changeTexts db.textsOf table record [] s record = [] := by
    intro i ix hix hrange s hs
    have hcheck := hwf.catalogued.source hix s hs
    rw [hfed.same.checkSource, hrange] at hcheck
    exact h.changeTexts_eq_nil hnone hcheck
  have hforget := hwf.tracks_forgetRecord hu hempty
  have hlast := h.tracks_texts_forgetRecord hwf hfed hu record
  refine ⟨hwf.forgetRecord hu hnone', hfed.same.trans (same_forgetRecord hu record),
    fun i => (frame_forgetRecord ..).trans (hfed.frame i),
    (htracks.trans (hforget.trans hlast)).imp ?_⟩
  rintro i r ⟨hsettled, hnot⟩
  refine ⟨trivial, ?_, hsettled⟩
  rintro ⟨ix, hix, hlexicon⟩
  obtain ⟨jx, hjx, hframe⟩ := hfed.index hix
  exact hnot ⟨jx, hjx, (Index.frame_eq_iff.1 hframe).1.trans hlexicon⟩

/-- A record that is not there is refused before anything has changed. Otherwise its values go, and
then the record itself. -/
theorem WellFormed.deleteRecord_cases (h : db.WellFormed) {outcome : Except Error Unit}
    (hcall : db.deleteRecord table record = (outcome, db')) :
    (∃ e, outcome = .error e ∧ db' = db) ∨ outcome = .ok () ∧
      ∃ t₁ db₁, db.isLive table record ∧
        db.retractValues record (db.columnsOf table) = (.ok (), db₁) ∧ db₁.WellFormed ∧
        db.Cleared db₁ ∧ Follows (db₁.Settled db.GivenOut) db db₁ ∧
        db₁.tables[table]? = some t₁ ∧ t₁.isLive record ∧
        (∀ c valueType, db₁.kind? c = some (.column table valueType) →
          db₁.value? c record = none) ∧
        db' = (db₁.retractKey table record).forgetRecord table record := by
  unfold Database.deleteRecord Database.table at hcall
  cases ht : db.tables[table]? with
  | none =>
    rw [ht] at hcall
    cases hcall
    exact .inl ⟨_, rfl, rfl⟩
  | some t =>
    simp only [ht] at hcall
    cases hr : t.isLive record with
    | false =>
      simp only [hr] at hcall
      cases hcall
      exact .inl ⟨_, rfl, rfl⟩
    | true =>
      simp only [hr] at hcall
      have hlive : db.isLive table record := by rw [isLive_of_table ht, hr]
      obtain ⟨db₁, hvalues, hwf₁, hcleared, hnone, hfollows₁⟩ :=
        h.retractValues (fun c hc => mem_columnsOf.1 hc) hlive
      rw [hvalues] at hcall
      cases hcall
      obtain ⟨t₁, ht₁, -⟩ := hcleared.same.symm.table ht
      have hr₁ : t₁.isLive record := by
        rw [← isLive_of_table ht₁]
        exact hcleared.isLive hlive
      refine .inr ⟨rfl, t₁, db₁, hlive, hvalues, hwf₁, hcleared, hfollows₁, ht₁, hr₁,
        fun c valueType hkind => ?_, rfl⟩
      exact hnone c (mem_columnsOf.2 ⟨valueType, by rwa [← hcleared.same.kind?]⟩)

/-- A record can be deleted if it is there, and goes with all its texts. -/
theorem WellFormed.deleteRecord (h : db.WellFormed) {outcome : Except Error Unit}
    (hcall : db.deleteRecord table record = (outcome, db')) :
    db'.WellFormed ∧ Follows (fun i r => db'.Settled db.GivenOut i r ∧
      (outcome = .ok () → ¬ db.IsLexiconOf i table)) db db' := by
  rcases h.deleteRecord_cases hcall with ⟨e, -, rfl⟩ |
    ⟨hok, t₁, db₁, -, -, hwf₁, hcleared, hfollows₁, ht₁, hr₁, hnone, rfl⟩
  · exact ⟨h, .refl _⟩
  · obtain ⟨hwf, hsame, hframe, hfollows⟩ := hwf₁.retractKey_forgetRecord ht₁ hr₁ hnone
    refine ⟨hwf, (hfollows₁.trans hfollows).imp ?_⟩
    rintro i r ⟨hsettled, hnot⟩
    refine ⟨hsettled.of_frames hsame hframe, hsettled.imp fun _ => hcleared.givenOut, ?_⟩
    rintro ⟨ix, hix, hlexicon⟩
    obtain ⟨jx, hjx, hlexicon', -⟩ := hcleared.same.index hix
    exact hnot hok ⟨jx, hjx, hlexicon'.trans hlexicon⟩

end Concordance.Database
