import Concordance.Proofs.Runs

/-! # Calls for one record

A database that has grown has the same objects as before, and its tables have gained records at
most. One that has been revised for a record has grown so, and what its indexes store of any other
record is as it was: to this come all values and texts that a call stores or takes away for one
record, whichever terms it adds to the lexicons.
-/
namespace Concordance

/-- Deltas of other records make nothing of the count of a place. -/
theorem Delta.foldl_effect_of_ne {deltas : List Delta} {r : Nat}
    (h : ∀ delta ∈ deltas, r ≠ delta.record) (ix : Index) (t : String) (s q n : Nat) :
    deltas.foldl (fun n delta => delta.effect ix t r s q n) n = n := by
  induction deltas generalizing n with
  | nil => rfl
  | cons delta rest ih =>
    have hstep : delta.effect ix t r s q n = n := by
      simp [effect, taken, given, h delta (List.mem_cons_self ..)]
    rw [List.foldl_cons, hstep]
    exact ih (fun d hd => h d (List.mem_cons_of_mem _ hd)) n

namespace Database
variable {db db' : Database} {table column record : Nat}

theorem table_of_isLive (h : db.isLive table record) : ∃ t, db.tables[table]? = some t := by
  cases ht : db.tables[table]? with
  | none => simp [isLive, ht] at h
  | some t => exact ⟨t, rfl⟩

/-! ## Growth -/

/-- The same objects, whose tables have gained records at most. -/
structure Grown (db db' : Database) : Prop where
  same : db.SameCatalog db'
  table : ∀ {id : Nat} {t}, db.tables[id]? = some t →
    ∃ u, db'.tables[id]? = some u ∧ t.Grows u

theorem Grown.refl (db : Database) : db.Grown db := ⟨.refl db, fun ht => ⟨_, ht, .refl _⟩⟩

theorem Grown.of_eq (h : db' = db) : db.Grown db' := h ▸ .refl db'

theorem Grown.trans {db'' : Database} (h : db.Grown db') (h' : db'.Grown db'') :
    db.Grown db'' where
  same := h.same.trans h'.same
  table ht := by
    obtain ⟨u, hu, hg⟩ := h.table ht
    obtain ⟨v, hv, hg'⟩ := h'.table hu
    exact ⟨v, hv, hg.trans hg'⟩

theorem Grown.isLive (h : db.Grown db') (hlive : db.isLive table record) :
    db'.isLive table record := by
  obtain ⟨t, ht⟩ := table_of_isLive hlive
  obtain ⟨u, hu, hg⟩ := h.table ht
  rw [isLive_of_table ht] at hlive
  rw [isLive_of_table hu]
  exact hg.live hlive

theorem Fed.grown (h : db.Fed db') : db.Grown db' := ⟨h.same, h.table⟩

theorem grown_withTable {t u : Table} (ht : db.tables[table]? = some t) (hg : t.Grows u) :
    db.Grown (db.withTable table u) where
  same := same_withTable ht hg
  table {id v} hv := by
    by_cases hid : id = table
    · subst hid
      obtain rfl := Option.some.inj (ht.symm.trans hv)
      exact ⟨u, by simp [withTable], hg⟩
    · exact ⟨v, by simpa [withTable, hid] using hv, .refl v⟩

theorem grown_withColumn {values values' : Column} (hvalues : db.columns[column]? = some values) :
    db.Grown (db.withColumn column values') :=
  ⟨same_withColumn hvalues, fun ht => ⟨_, ht, .refl _⟩⟩

theorem grown_setSourceList {i : Nat} {ix : Index} (hix : db.indexes[i]? = some ix)
    (sources : List ObjectId) : db.Grown (db.setSourceList i sources) := by
  refine ⟨same_setSourceList hix sources, fun {id t} ht => ⟨t, ?_, .refl t⟩⟩
  rw [setSourceList_of_get hix]
  exact ht

/-- New sources bring terms at most. -/
theorem WellFormed.grown_installSources (h : db.WellFormed) {e : HashOrder} {i : Nat}
    {sources : List ObjectId} (hok : e.installSources db i sources = .ok db') : db.Grown db' := by
  obtain ⟨ix, deltas, hix, hcheck, hdeltas, rfl⟩ := installSources_eq_ok hok
  have hfed := (h.carry (h.receives_sources hix hcheck hdeltas).1).2
  rw [← applyDeltas_eq_carry] at hfed
  obtain ⟨ix', hix', -⟩ := hfed.index' hix
  exact hfed.grown.trans (grown_setSourceList hix' sources)

theorem WellFormed.grown_detach (h : db.WellFormed) {e : HashOrder} {gone list : List ObjectId}
    (hcall : e.detach db gone list = (.ok (), db')) : db.Grown db' := by
  induction list generalizing db with
  | nil =>
    cases hcall
    exact .refl _
  | cons i rest ih =>
    simp only [HashOrder.detach] at hcall
    split at hcall
    · rename_i db₁ hinstall
      exact (h.grown_installSources hinstall).trans (ih (h.installSources hinstall).1 hcall)
    · cases hcall

/-! ## Revisions -/

/-- Grown, with the same sources of indexes, and with whatever texts of one record. -/
structure Revised (db db' : Database) (record : Nat) : Prop extends Grown db db' where
  frame : ∀ i : Nat, db'.indexes[i]?.map Index.frame = db.indexes[i]?.map Index.frame
  spared : ∀ {r : Nat}, r ≠ record → ∀ i t s q, db'.storedAt i t r s q = db.storedAt i t r s q

theorem Revised.refl (db : Database) (record : Nat) : db.Revised db record :=
  ⟨.refl db, fun _ => rfl, fun _ _ _ _ _ => rfl⟩

theorem Revised.trans {db'' : Database} (h : db.Revised db' record)
    (h' : db'.Revised db'' record) : db.Revised db'' record where
  toGrown := h.toGrown.trans h'.toGrown
  frame i := (h'.frame i).trans (h.frame i)
  spared hr i t s q := (h'.spared hr i t s q).trans (h.spared hr i t s q)

/-- Deltas of one record leave the other records alone. -/
theorem WellFormed.revised_carry (h : db.WellFormed) {changes : List (ObjectId × Delta)}
    (hr : ∀ change ∈ changes, db.Receives change)
    (hrecord : ∀ change ∈ changes, change.2.record = record) :
    db.Revised (db.carry changes) record where
  toGrown := (h.carry hr).2.grown
  frame := (h.carry hr).2.frame
  spared {r} hne i t s q := by
    rw [h.storedAt_carry hr, effectAt]
    split
    · rename_i ix hix
      refine Delta.foldl_effect_of_ne (fun delta hd => ?_) ix t s q _
      obtain ⟨change, hc, rfl⟩ := List.mem_map.1 hd
      rw [hrecord change (List.mem_filter.1 hc).1]
      exact hne
    · rename_i hix
      simp only [storedAt, hix]

theorem WellFormed.revised_feed (h : db.WellFormed) {source : Nat}
    (hlive : ∀ range, db.checkSource range source = .ok () → db.isLive range record)
    (old new : List String) : db.Revised (db.feed (db.fedBy source) record old new) record := by
  rw [feed_eq_carry]
  refine h.revised_carry (h.receives_fedBy hlive old new) fun change hc => ?_
  obtain ⟨place, -, rfl⟩ := List.mem_map.1 hc
  rfl

/-! Deltas do not look at values. -/

theorem applyDelta_withColumn (values : Column) (i : Nat) (delta : Delta) :
    (db.withColumn column values).applyDelta i delta =
      (db.applyDelta i delta).withColumn column values := by
  simp only [applyDelta, withColumn]
  cases db.indexes[i]? with
  | none => rfl
  | some ix =>
    dsimp only
    cases db.tables[ix.lexicon]? <;> rfl

theorem feed_withColumn_comm (values : Column) (fed : List (ObjectId × Nat)) (record : Nat)
    (old new : List String) : (db.withColumn column values).feed fed record old new =
      (db.feed fed record old new).withColumn column values := by
  induction fed generalizing db with
  | nil => rfl
  | cons place rest ih =>
    simp only [feed, List.foldl_cons] at ih ⊢
    rw [applyDelta_withColumn, ih]

/-- Other values in a column, and a change of texts that the column feeds. -/
theorem WellFormed.revised_withColumn (h : db.WellFormed) {values : Column}
    (hvalues : db.columns[column]? = some values) {valueType : DataType}
    (hkind : db.kind? column = some (.column table valueType)) (hr : db.isLive table record)
    (values' : Column) (old new : List String) :
    let stored := db.withColumn column values'
    db.Revised (stored.feed (stored.fedBy column) record old new) record := by
  intro stored
  have hlive : ∀ range, db.checkSource range column = .ok () → db.isLive range record :=
    fun range => isLive_of_checkSource hkind hr
  have hfed := (h.feed hlive old new).2
  have hvalues' : (db.feed (db.fedBy column) record old new).columns[column]? = some values := by
    rw [hfed.columns, hvalues]
  rw [feed_withColumn_comm]
  refine (h.revised_feed hlive old new).trans ⟨grown_withColumn hvalues', fun _ => rfl, ?_⟩
  intro _ _ _ _ _ _
  rfl

/-- A value is stored for its record only. -/
theorem WellFormed.revised_setValue (h : db.WellFormed) {v : Json} {outcome : Except Error Unit}
    (hcall : db.setValue column record v = (outcome, db')) : db.Revised db' record := by
  rcases h.setValue_cases hcall with ⟨e, -, rfl⟩ |
    ⟨-, table, valueType, values, texts, hkind, hlive, -, -, hvalues, rfl⟩
  · exact .refl _ record
  · exact h.revised_withColumn hvalues hkind hlive _ _ texts

/-- A value that has been stored changes what an index stores at the places of its column, one after
another. -/
theorem WellFormed.storedAt_setValue (h : db.WellFormed) {v : Json} {texts : List String}
    (hcall : db.setValue column record v = (.ok (), db')) (htexts : v.indexTexts = .ok texts)
    {i : Nat} {ix : Index} (hix : db.indexes[i]? = some ix) (t : String) (r s q : Nat) :
    db'.storedAt i t r s q = ((ix.placesOf column).map fun sec =>
      (⟨record, sec, db.textsOf column record, texts⟩ : Delta)).foldl
        (fun n delta => delta.effect ix t r s q n) (db.storedAt i t r s q) := by
  rcases h.setValue_cases hcall with ⟨e, he, -⟩ |
    ⟨-, table, valueType, values, texts', hkind, hlive, -, htexts', hvalues, rfl⟩
  · cases he
  · obtain rfl := Except.ok.inj (htexts.symm.trans htexts')
    have hr := h.receives_fedBy (fun range => isLive_of_checkSource hkind hlive)
      (db.textsOf column record) texts
    have hplaces := filter_fedBy hix column
    have hfed : db.fedBy column = (db.withColumn column
        (if v.isNull then values.erase record else values.insert record v)).fedBy column := rfl
    rw [← hfed, feed_withColumn_comm, feed_eq_carry]
    refine (h.storedAt_carry hr i t r s q).trans ?_
    simp only [effectAt, hix]
    rw [List.filter_map, List.map_map, Index.placesOf, List.map_map]
    congr 1
    exact (congrArg _ hplaces).trans (List.map_map ..)

/-- Values go for their record only. -/
theorem WellFormed.revised_retractValues (h : db.WellFormed) {columns : List ObjectId}
    (hcolumns : ∀ c ∈ columns, ∃ valueType, db.kind? c = some (.column table valueType))
    (hr : db.isLive table record)
    (hcall : db.retractValues record columns = (.ok (), db')) : db.Revised db' record := by
  induction columns generalizing db with
  | nil =>
    cases hcall
    exact .refl _ record
  | cons column rest ih =>
    have hrest := fun c hc => hcolumns c (List.mem_cons_of_mem column hc)
    unfold Database.retractValues at hcall
    cases hv : db.value? column record with
    | none =>
      rw [hv] at hcall
      exact ih h hrest hr hcall
    | some v =>
      obtain ⟨valueType, hkind⟩ := hcolumns column (List.mem_cons_self ..)
      obtain ⟨values, hvalues, hget⟩ := value?_eq_some.1 hv
      have htexts := (h.value_of_kind hvalues hkind hget).2.indexTexts
      simp only [hv, htexts] at hcall
      obtain ⟨hwf, hcleared, -⟩ := h.retractValue hkind hr hv
      simp only [← hcleared.same.kind?] at hrest
      have hstep := h.revised_withColumn hvalues hkind hr (values.erase record) v.texts []
      rw [← eraseValue_of_get hvalues] at hstep
      exact hstep.trans (ih hwf hrest (hcleared.isLive hr) hcall)

/-- A key goes for its record only. -/
theorem WellFormed.revised_retractKey (h : db.WellFormed) {t : Table}
    (ht : db.tables[table]? = some t) (hr : t.isLive record) :
    db.Revised (db.retractKey table record) record := by
  unfold Database.retractKey
  split
  · rename_i key _
    refine h.revised_feed (fun range hs => ?_) [key] []
    rw [← h.catalogued.eq_of_checkSource ht hs, isLive_of_table ht]
    exact hr
  · exact .refl db record

/-- A record is deleted by a revision for it and by forgetting it. -/
theorem WellFormed.deleteRecord_revised (h : db.WellFormed)
    (hcall : db.deleteRecord table record = (.ok (), db')) :
    ∃ db₁ t, db₁.WellFormed ∧ db.Revised db₁ record ∧ db₁.tables[table]? = some t ∧
      t.isLive record ∧ db' = db₁.forgetRecord table record := by
  rcases h.deleteRecord_cases hcall with ⟨e, he, -⟩ |
    ⟨-, t₁, db₁, hlive, hvalues, hwf₁, -, -, ht₁, hr₁, -, rfl⟩
  · cases he
  · obtain ⟨hwf, hfed, -⟩ := hwf₁.tracks_retractKey ht₁ hr₁
    obtain ⟨u, hu, hg⟩ := hfed.table ht₁
    exact ⟨_, u, hwf, (h.revised_retractValues (fun c hc => mem_columnsOf.1 hc) hlive hvalues).trans
      (hwf₁.revised_retractKey ht₁ hr₁), hu, hg.live hr₁, rfl⟩

/-- A key brings its record and terms at most. -/
theorem WellFormed.grown_addRecordWithKey (h : db.WellFormed) {key : String}
    {outcome : Except Error RecordId} (hcall : db.addRecordWithKey table key = (outcome, db')) :
    db.Grown db' := by
  rcases addRecordWithKey_cases hcall with rfl | ⟨t, kind, keyType, tokenizer, ht, hkind, -, rfl⟩
  · exact .refl _
  · have hsound := h.filled.sound ht
    have hgrows := hsound.grows_addKey key
    have hgrown := grown_withTable ht hgrows
    cases hfind : t.find? key with
    | some id => simpa using hgrown
    | none =>
      have hkey := h.catalogued.hasKey_of_keyType ht hkind
      have hwf := h.withTable ht hgrows (hsound.addKey hkey key)
      have hid : (t.addKey key).1 = t.next := by rw [Table.addKey_of_new hfind]
      have hrevised := hwf.revised_feed (fun range => h.isLive_newKey ht hfind) [] [key]
      simpa [hid] using hgrown.trans hrevised.toGrown

theorem grown_addRecord {outcome : Except Error RecordId}
    (hcall : db.addRecord table = (outcome, db')) : db.Grown db' := by
  rcases addRecord_cases hcall with rfl | ⟨t, ht, -, rfl⟩
  · exact .refl _
  · exact grown_withTable ht t.grows_add

theorem WellFormed.grown_setSourceInfo (h : db.WellFormed) {e : HashOrder} {i : Nat}
    {sources : Buffer} {outcome : Except Error Unit}
    (hcall : e.setSourceInfo db i sources = (outcome, db')) :
    db.Grown db' := by
  rcases setSourceInfo_cases hcall with rfl | ⟨ids, hinstall⟩
  · exact .refl _
  · exact h.grown_installSources hinstall

/-- A successful update of an index is for its record only. -/
theorem WellFormed.revised_indexUpdate (h : db.WellFormed) {i sec : Nat} {old new : Option Buffer}
    {outcome : Except Error Unit}
    (hcall : db.indexUpdate i record sec old new = (outcome, db')) : db.Revised db' record := by
  rcases indexUpdate_cases hcall with rfl | ⟨ix, oldTexts, newTexts, -, hix, hlive, rfl⟩
  · exact .refl _ record
  · have hreceives : ∀ change ∈ [((i, ⟨record, sec, oldTexts, newTexts⟩) : ObjectId × Delta)],
        db.Receives change := by
      intro change hc
      obtain rfl := List.mem_singleton.1 hc
      exact .of_get hix hlive
    refine h.revised_carry hreceives fun change hc => ?_
    obtain rfl := List.mem_singleton.1 hc
    rfl

end Database
end Concordance
