import Concordance.Database.Records
import Concordance.Proofs.Tracking

/-! # Adding records and storing values

Each of these calls keeps a well-formed database well-formed, and its counts follow the texts: a new
key is fed as a text that was not there, a new value as a change of the texts before it.
-/
namespace Concordance.Database
variable {db db' : Database} {table : Nat} {t t' : Table}

/-! ## A table with more records -/

/-- The database with another table under an id. -/
def withTable (db : Database) (table : ObjectId) (t : Table) : Database :=
  { db with tables := db.tables.insert table t }

theorem withTable_self (ht : db.tables[table]? = some t) : db.withTable table t = db := by
  have htables : db.tables.insert table t = db.tables := by
    apply Std.ExtTreeMap.ext_getElem?
    intro id
    rw [FiniteMap.getElem?_insert]
    split
    · rename_i hid
      rw [hid, ht]
    · rfl
  simp only [withTable, htables]

theorem same_withTable (ht : db.tables[table]? = some t) (hg : t.Grows t') :
    db.SameCatalog (db.withTable table t') := by
  refine ⟨rfl, rfl, rfl, fun id => ?_, fun _ => rfl, fun _ => rfl⟩
  by_cases hid : id = table
  · subst hid
    simp [withTable, ht, hg.kind]
  · simp [withTable, hid]

theorem isLive_withTable (ht : db.tables[table]? = some t) (hg : t.Grows t') {id record : Nat}
    (hr : db.isLive id record) : (db.withTable table t').isLive id record := by
  by_cases hid : id = table
  · subst hid
    rw [isLive_of_table ht] at hr
    rw [isLive_of_table (t := t') (by simp [withTable])]
    exact hg.live hr
  · simpa [isLive, withTable, hid] using hr

theorem WellFormed.withTable (h : db.WellFormed) (ht : db.tables[table]? = some t)
    (hg : t.Grows t') (hs : t'.Sound) : (db.withTable table t').WellFormed := by
  have hsame := same_withTable ht hg
  refine ⟨h.catalogued.of_same hsame h.catalogued.source, ?_, ?_, h.named.of_same hsame⟩
  · constructor
    · intro id u hu
      simp only [Database.withTable, FiniteMap.getElem?_insert] at hu
      split at hu
      · cases hu
        exact hs
      · exact h.filled.sound hu
    · intro column record v hv
      obtain ⟨owner, valueType, hkind, hr, hv⟩ := h.filled.value hv
      exact ⟨owner, valueType, by rwa [hsame.kind?], isLive_withTable ht hg hr, hv⟩
  · refine ⟨h.posted.neat, ?_, ?_⟩
    · intro i ix lexicon hix hlex
      simp only [Database.withTable, FiniteMap.getElem?_insert] at hlex
      split at hlex
      · rename_i hid
        cases hlex
        exact (h.posted.matched hix (hid ▸ ht)).grows hg hs
      · exact h.posted.matched hix hlex
    · intro i ix hix term record sec position hq
      obtain ⟨hr, hle⟩ := h.posted.live hix hq
      exact ⟨isLive_withTable ht hg hr, hle⟩

theorem WellFormed.storedAt_withTable (h : db.WellFormed) (ht : db.tables[table]? = some t)
    (hg : t.Grows t') (hs : t'.Sound) : (db.withTable table t').storedAt = db.storedAt := by
  funext i term r s q
  simp only [storedAt]
  cases hix : db.indexes[i]? with
  | none => simp [Database.withTable, hix]
  | some ix =>
    have hix' : (db.withTable table t').indexes[i]? = some ix := hix
    rw [hix']
    dsimp only
    by_cases hid : ix.lexicon = table
    · have hlex' : (db.withTable table t').tables[ix.lexicon]? = some t' := by
        simp [Database.withTable, hid]
      have hm := h.posted.matched hix (hid ▸ ht)
      rw [stored_eq_tally ix hlex', stored_eq_tally ix (hid ▸ ht), hm.tally_grows hg hs]
    · simp only [stored, recordId?, Database.withTable, FiniteMap.getElem?_insert, if_neg hid]

theorem textsOf_withTable_of_ne {source : Nat} (hne : source ≠ table) (record : Nat) :
    (db.withTable table t').textsOf source record = db.textsOf source record := by
  simp only [textsOf, recordKey?, withTable, FiniteMap.getElem?_insert, if_neg hne]

theorem WellFormed.textsOf_withTable (h : db.WellFormed) (ht : db.tables[table]? = some t)
    (hg : t.Grows t') (hs : t'.Sound) (record : Nat) :
    (db.withTable table t').textsOf table record =
      ((t'.key? record).map fun key => [key]).getD [] := by
  have ht' : (db.withTable table t').tables[table]? = some t' := by simp [Database.withTable]
  exact (h.withTable ht hg hs).catalogued.textsOf_table ht' record

/-! ## Adding records -/

theorem table_eq_ok : db.table table = .ok t ↔ db.tables[table]? = some t := by
  unfold Database.table
  cases db.tables[table]? <;> simp

theorem addRecord_cases {outcome : Except Error RecordId}
    (h : db.addRecord table = (outcome, db')) : db' = db ∨
      ∃ t, db.tables[table]? = some t ∧ ¬ t.kind.hasKey ∧ db' = db.withTable table t.add.2 := by
  rcases attempt_inv h with ⟨id, hok, -⟩ | ⟨e, -, -, heq⟩
  · right
    obtain ⟨t, ht, hok⟩ := bind_eq_ok.1 hok
    cases hkey : t.kind.hasKey with
    | true =>
      simp only [hkey, if_true] at hok
      cases hok
    | false =>
      simp only [hkey] at hok
      cases hok
      exact ⟨t, table_eq_ok.1 ht, by simp [hkey], rfl⟩
  · exact .inl heq

/-- A new record without a key holds no texts. -/
theorem WellFormed.addRecord (h : db.WellFormed) {outcome : Except Error RecordId}
    (hcall : db.addRecord table = (outcome, db')) :
    db'.WellFormed ∧ Follows (fun _ _ => True) db db' := by
  rcases addRecord_cases hcall with rfl | ⟨t, ht, hkey, rfl⟩
  · exact ⟨h, .refl _⟩
  · have hadd := (h.filled.sound ht).add hkey
    have htexts : (db.withTable table t.add.2).textsOf = db.textsOf := by
      funext source record
      by_cases hsource : source = table
      · rw [hsource, h.textsOf_withTable ht t.grows_add hadd, Table.key?_add,
          h.catalogued.textsOf_table ht]
      · exact textsOf_withTable_of_ne hsource record
    have hproduced : (db.withTable table t.add.2).producedAt = db.producedAt := by
      simp only [producedAt, htexts]
      rfl
    refine ⟨h.withTable ht t.grows_add hadd, .of_stored ?_ ?_ ?_⟩
    · intro i term r s q
      rw [h.storedAt_withTable ht t.grows_add hadd]
    · intro i term r s q
      exact Nat.le_of_eq (by rw [hproduced])
    · intro i r _ term s q
      rw [hproduced]

theorem keyLimit_eq_ok {limit : Nat} (h : db.keyLimit table = .ok limit) :
    ∃ kind keyType tokenizer, db.kind? table = some (.table kind (some keyType) tokenizer) ∧
      limit = keyType.maxSize := by
  simp only [keyLimit, object?] at h
  split at h
  · rename_i info hinfo
    split at h
    · rename_i kind keyType tokenizer hkind
      cases h
      exact ⟨kind, keyType, tokenizer, by rw [kind?_of_get hinfo, hkind], rfl⟩
    · cases h
    · cases h
  · cases h

theorem addRecordWithKey_cases {key : String} {outcome : Except Error RecordId}
    (h : db.addRecordWithKey table key = (outcome, db')) : db' = db ∨
      ∃ t kind keyType tokenizer, db.tables[table]? = some t ∧
        db.kind? table = some (.table kind (some keyType) tokenizer) ∧
        outcome = .ok (t.addKey key).1 ∧ db' = if (t.find? key).isNone then
            (db.withTable table (t.addKey key).2).feed
              ((db.withTable table (t.addKey key).2).fedBy table) (t.addKey key).1 [] [key]
          else db.withTable table (t.addKey key).2 := by
  rcases attempt_inv h with ⟨id, hok, houtcome⟩ | ⟨e, -, -, heq⟩
  · right
    obtain ⟨limit, hlimit, hok⟩ := bind_eq_ok.1 hok
    obtain ⟨_, -, hok⟩ := bind_eq_ok.1 hok
    obtain ⟨t, ht, hok⟩ := bind_eq_ok.1 hok
    obtain ⟨kind, keyType, tokenizer, hkind, -⟩ := keyLimit_eq_ok hlimit
    cases hok
    exact ⟨t, kind, keyType, tokenizer, table_eq_ok.1 ht, hkind, houtcome, rfl⟩
  · exact .inl heq

section NewKey
variable {key : String} (h : db.WellFormed) (ht : db.tables[table]? = some t)
  (hkey : t.kind.hasKey) (hfind : t.find? key = none)
include h ht hkey hfind

/-- The record of a new key holds the key as its text. -/
theorem WellFormed.textsOf_newKey : changeTexts db.textsOf table t.next [key] =
    (db.withTable table (t.addKey key).2).textsOf := by
  have hsound := h.filled.sound ht
  funext source record
  simp only [changeTexts]
  by_cases hsource : source = table
  · rw [hsource, h.textsOf_withTable ht (hsound.grows_addKey key) (hsound.addKey hkey key),
      Table.key?_addKey_of_new hfind, h.catalogued.textsOf_table ht]
    by_cases hrecord : record = t.next <;> simp [hrecord]
  · rw [if_neg fun hc => hsource hc.1, textsOf_withTable_of_ne hsource]

omit hkey in
theorem WellFormed.isLive_newKey {range : Nat}
    (hs : (db.withTable table (t.addKey key).2).checkSource range table = .ok ()) :
    (db.withTable table (t.addKey key).2).isLive range t.next := by
  rw [(same_withTable ht ((h.filled.sound ht).grows_addKey key)).checkSource] at hs
  obtain rfl := h.catalogued.eq_of_checkSource ht hs
  rw [isLive_of_table (t := (t.addKey key).2) (by simp [Database.withTable])]
  exact (Table.isLive_addKey_of_new hfind _).2 (.inl rfl)

/-- What indexes hold follows the new text. -/
theorem WellFormed.feed_newKey :
    let entered := db.withTable table (t.addKey key).2
    let fed := entered.feed (entered.fedBy table) t.next [] [key]
    fed.WellFormed ∧ Follows (fed.Settled entered.GivenOut) db fed := by
  intro entered fed
  have hsound := h.filled.sound ht
  have hgrows := hsound.grows_addKey key
  have hadd := hsound.addKey hkey key
  have hlive : ∀ range, entered.checkSource range table = .ok () → entered.isLive range t.next :=
    fun range => h.isLive_newKey ht hfind
  have hold : db.textsOf table t.next = [] := by
    rw [h.catalogued.textsOf_table ht, hsound.key?_next]
    rfl
  have hindexes : entered.indexes = db.indexes := rfl
  have hfollows := (h.withTable ht hgrows hadd).follows_feed hlive hindexes
    (h.storedAt_withTable ht hgrows hadd) (h.textsOf_newKey ht hkey hfind)
  rw [hold] at hfollows
  exact ⟨((h.withTable ht hgrows hadd).feed hlive [] [key]).1, hfollows⟩

omit h hkey in
/-- The record of a new key counts as given out as soon as it is entered. -/
theorem givenOut_newKey {s r : Nat} (hr : db.GivenOut s r ∨ s = table ∧ r = t.next) :
    (db.withTable table (t.addKey key).2).GivenOut s r := by
  intro v hv
  simp only [Database.withTable, FiniteMap.getElem?_insert] at hv
  split at hv
  · rename_i hs
    cases hv
    rw [Table.next_addKey_of_new hfind]
    rcases hr with hold | ⟨-, rfl⟩
    · exact Nat.lt_succ_of_lt (hold t (hs ▸ ht))
    · exact Nat.lt_succ_self _
  · rename_i hs
    exact (hr.resolve_right fun hnew => hs hnew.1) v hv

end NewKey

/-- A new key is fed as a text that was not there, and a known key changes nothing. The record is as
good as given out when the key is fed. -/
theorem WellFormed.addRecordWithKey (h : db.WellFormed) {key : String}
    {outcome : Except Error RecordId} (hcall : db.addRecordWithKey table key = (outcome, db')) :
    db'.WellFormed ∧ Follows (db'.Settled fun s r => db.GivenOut s r ∨ s = table ∧ outcome = .ok r)
      db db' := by
  rcases addRecordWithKey_cases hcall with rfl |
    ⟨t, kind, keyType, tokenizer, ht, hkind, houtcome, heq⟩
  · exact ⟨h, .refl _⟩
  · have hkey := h.catalogued.hasKey_of_keyType ht hkind
    cases hfind : t.find? key with
    | some id =>
      simp only [hfind, Option.isNone_some, Bool.false_eq_true, if_false,
        Table.addKey_of_find? hfind, withTable_self ht] at heq
      rw [heq]
      exact ⟨h, .refl db⟩
    | none =>
      have hid : (t.addKey key).1 = t.next := by rw [Table.addKey_of_new hfind]
      simp only [hfind, Option.isNone_none, if_true, hid] at heq houtcome
      obtain ⟨hwf, hfollows⟩ := h.feed_newKey ht hkey hfind
      rw [← heq] at hwf hfollows
      refine ⟨hwf, hfollows.imp fun i r hsettled => hsettled.imp fun hu hknown => ?_⟩
      refine givenOut_newKey ht hfind (hknown.imp_right fun ⟨hs, hr⟩ => ⟨hs, ?_⟩)
      exact (Except.ok.inj (houtcome.symm.trans hr)).symm

/-! ## A column with other values -/

/-- The database with other values in a column. -/
def withColumn (db : Database) (column : ObjectId) (values : Column) : Database :=
  { db with columns := db.columns.insert column values }

variable {column record : Nat} {values values' : Column} {valueType : DataType}

theorem value?_withColumn (c r : Nat) : (db.withColumn column values).value? c r =
    if c = column then values[r]? else db.value? c r := by
  simp only [value?, withColumn, FiniteMap.getElem?_insert]
  split <;> rfl

theorem same_withColumn (hvalues : db.columns[column]? = some values) :
    db.SameCatalog (db.withColumn column values') := by
  refine ⟨rfl, rfl, rfl, fun _ => rfl, fun id => ?_, fun _ => rfl⟩
  by_cases hid : id = column
  · subst hid
    simp [withColumn, hvalues]
  · simp [withColumn, hid]

theorem WellFormed.withColumn (h : db.WellFormed) (hvalues : db.columns[column]? = some values)
    (hkind : db.kind? column = some (.column table valueType))
    (hvalue : ∀ {r : Nat} {v}, values'[r]? = some v → db.isLive table r ∧ v.Indexable valueType) :
    (db.withColumn column values').WellFormed := by
  have hsame : db.SameCatalog (db.withColumn column values') := same_withColumn hvalues
  refine ⟨h.catalogued.of_same hsame h.catalogued.source, ⟨h.filled.sound, ?_⟩, ?_,
    h.named.of_same hsame⟩
  · intro c r v hv
    rw [hsame.kind?]
    rw [value?_withColumn] at hv
    by_cases hc : c = column
    · rw [if_pos hc] at hv
      exact ⟨table, valueType, hc ▸ hkind, hvalue hv⟩
    · rw [if_neg hc] at hv
      exact h.filled.value hv
  · exact ⟨h.posted.neat, h.posted.matched, h.posted.live⟩

theorem changeTexts_withColumn (hvalues : db.columns[column]? = some values)
    (hother : ∀ r, r ≠ record → values'[r]? = values[r]?) :
    changeTexts db.textsOf column record ((values'[record]?.map Json.texts).getD []) =
      (db.withColumn column values').textsOf := by
  funext source r
  simp only [changeTexts, textsOf, withColumn, FiniteMap.getElem?_insert]
  by_cases hs : source = column
  · by_cases hr : r = record
    · simp [hs, hr]
    · simp [hs, hr, hvalues, hother r hr]
  · rw [if_neg fun hc => hs hc.1, if_neg hs]
    rfl

/-- An index that a column feeds is over the table of the column. -/
theorem isLive_of_checkSource (hkind : db.kind? column = some (.column table valueType))
    (hr : db.isLive table record) {range : Nat} (hs : db.checkSource range column = .ok ()) :
    db.isLive range record := by
  rw [checkSource_eq_ok, hkind] at hs
  rcases hs with ⟨valueType', heq⟩ | ⟨-, kind, keyType, tokenizer, heq⟩
  · cases heq
    exact hr
  · cases heq

/-- After other values are stored in a column, its indexes can be told of a record. -/
theorem WellFormed.live_withColumn (h : db.WellFormed) (hvalues : db.columns[column]? = some values)
    (hkind : db.kind? column = some (.column table valueType))
    (hvalue : ∀ {r : Nat} {v}, values'[r]? = some v → db.isLive table r ∧ v.Indexable valueType)
    (hr : db.isLive table record) : (db.withColumn column values').WellFormed ∧
      ∀ range, (db.withColumn column values').checkSource range column = .ok () →
        (db.withColumn column values').isLive range record := by
  refine ⟨h.withColumn hvalues hkind hvalue, fun range hs => ?_⟩
  rw [(same_withColumn hvalues).checkSource] at hs
  exact isLive_of_checkSource hkind hr hs

/-- Storing other values for one record of a column and feeding the change. -/
theorem WellFormed.feed_withColumn (h : db.WellFormed)
    (hvalues : db.columns[column]? = some values)
    (hkind : db.kind? column = some (.column table valueType))
    (hvalue : ∀ {r : Nat} {v}, values'[r]? = some v → db.isLive table r ∧ v.Indexable valueType)
    (hother : ∀ r, r ≠ record → values'[r]? = values[r]?) (hr : db.isLive table record)
    {old new : List String} (hold : old = db.textsOf column record)
    (hnew : new = (values'[record]?.map Json.texts).getD []) :
    let stored := db.withColumn column values'
    (stored.feed (stored.fedBy column) record old new).WellFormed ∧
      stored.Fed (stored.feed (stored.fedBy column) record old new) ∧
      Follows ((stored.feed (stored.fedBy column) record old new).Settled db.GivenOut) db
        (stored.feed (stored.fedBy column) record old new) := by
  intro stored
  obtain ⟨hwf, hlive⟩ := h.live_withColumn hvalues hkind hvalue hr
  obtain ⟨hfedWf, hfed⟩ := hwf.feed hlive old new
  refine ⟨hfedWf, hfed, ?_⟩
  rw [hold, hnew]
  exact hwf.follows_feed hlive rfl rfl (changeTexts_withColumn hvalues hother)

/-! ## Storing values -/

theorem columnType_eq_ok {found : ObjectId × DataType} (h : db.columnType column = .ok found) :
    db.kind? column = some (.column found.1 found.2) := by
  simp only [columnType, object?] at h
  split at h
  · rename_i info hinfo
    split at h
    · rename_i hkind
      cases h
      rw [kind?_of_get hinfo, hkind]
    · cases h
  · cases h

theorem columnType_of_kind (h : db.kind? column = some (.column table valueType)) :
    db.columnType column = .ok (table, valueType) := by
  obtain ⟨info, hinfo, hkind⟩ := Option.map_eq_some_iff.1 h
  simp only [columnType, object?, hinfo, hkind]

theorem checkValue_eq_ok {v : Json} {found : List String × Column}
    (h : db.checkValue column record v = .ok found) :
    ∃ table valueType, db.kind? column = some (.column table valueType) ∧
      db.isLive table record ∧ v.checkType valueType = .ok () ∧ v.indexTexts = .ok found.1 ∧
        db.columns[column]? = some found.2 := by
  obtain ⟨⟨table, valueType⟩, hkind, h⟩ := bind_eq_ok.1 h
  cases hlive : db.isLive table record with
  | false =>
    simp only [hlive] at h
    cases h
  | true =>
    simp only [hlive] at h
    obtain ⟨_, htype, h⟩ := bind_eq_ok.1 h
    obtain ⟨texts, htexts, h⟩ := bind_eq_ok.1 h
    split at h
    · rename_i values hvalues
      cases h
      exact ⟨table, valueType, columnType_eq_ok hkind, hlive, htype, htexts, hvalues⟩
    · cases h

theorem WellFormed.textsBefore (h : db.WellFormed) (hvalues : db.columns[column]? = some values)
    (hkind : db.kind? column = some (.column table valueType)) :
    textsBefore values[record]? = .ok (db.textsOf column record) := by
  simp only [textsOf, hvalues]
  cases hv : values[record]? with
  | none => rfl
  | some v => exact (h.value_of_kind hvalues hkind hv).2.indexTexts

/-- A value is refused before anything has changed, or it is stored and fed. -/
theorem WellFormed.setValue_cases (h : db.WellFormed) {v : Json} {outcome : Except Error Unit}
    (hcall : db.setValue column record v = (outcome, db')) :
    (∃ e, outcome = .error e ∧ db' = db) ∨ outcome = .ok () ∧
      ∃ table valueType values texts, db.kind? column = some (.column table valueType) ∧
        db.isLive table record ∧ v.checkType valueType = .ok () ∧ v.indexTexts = .ok texts ∧
        db.columns[column]? = some values ∧
        let stored := db.withColumn column
          (if v.isNull then values.erase record else values.insert record v)
        db' = stored.feed (stored.fedBy column) record (db.textsOf column record) texts := by
  unfold Database.setValue at hcall
  cases hcheck : db.checkValue column record v with
  | error e =>
    rw [hcheck] at hcall
    cases hcall
    exact .inl ⟨e, rfl, rfl⟩
  | ok found =>
    obtain ⟨texts, values⟩ := found
    obtain ⟨table, valueType, hkind, hlive, htype, htexts, hvalues⟩ := checkValue_eq_ok hcheck
    rw [hcheck] at hcall
    simp only [h.textsBefore hvalues hkind] at hcall
    cases hcall
    exact .inr ⟨rfl, table, valueType, values, texts, hkind, hlive, htype, htexts, hvalues, rfl⟩

/-- What a column holds once a checked value is in it, or `null` has cleared it. -/
theorem WellFormed.indexable_keep (h : db.WellFormed) {v : Json} {texts : List String}
    (hvalues : db.columns[column]? = some values)
    (hkind : db.kind? column = some (.column table valueType)) (hlive : db.isLive table record)
    (htype : v.checkType valueType = .ok ()) (htexts : v.indexTexts = .ok texts) {r : Nat}
    {w : Json} (hw : (if v.isNull then values.erase record else values.insert record v)[r]? =
      some w) : db.isLive table r ∧ w.Indexable valueType := by
  rcases FiniteMap.getElem?_keep_eq_some.1 hw with ⟨rfl, hnull, rfl⟩ | ⟨-, hw⟩
  · exact ⟨hlive, hnull, htype, texts, htexts⟩
  · exact h.value_of_kind hvalues hkind hw

/-- A value replaces the texts of the one before it. -/
theorem WellFormed.setValue (h : db.WellFormed) {v : Json} {outcome : Except Error Unit}
    (hcall : db.setValue column record v = (outcome, db')) :
    db'.WellFormed ∧ Follows (db'.Settled db.GivenOut) db db' := by
  rcases h.setValue_cases hcall with ⟨e, -, rfl⟩ |
    ⟨-, table, valueType, values, texts, hkind, hlive, htype, htexts, hvalues, rfl⟩
  · exact ⟨h, .refl _⟩
  · have hother : ∀ r, r ≠ record →
        (if v.isNull then values.erase record else values.insert record v)[r]? = values[r]? := by
      intro r hr
      rw [FiniteMap.getElem?_keep, if_neg hr]
    have hnew : texts = ((if v.isNull then values.erase record
        else values.insert record v)[record]?.map Json.texts).getD [] := by
      rw [FiniteMap.getElem?_keep, if_pos rfl]
      cases hnull : v.isNull with
      | true =>
        cases v with
        | null =>
          cases htexts
          rfl
        | _ => cases hnull
      | false => simp [Json.texts, htexts]
    obtain ⟨hwf, -, hfollows⟩ := h.feed_withColumn hvalues hkind
      (h.indexable_keep hvalues hkind hlive htype htexts) hother hlive rfl hnew
    exact ⟨hwf, hfollows⟩

end Concordance.Database
