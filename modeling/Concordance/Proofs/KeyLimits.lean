import Concordance.Proofs.Erasing
import Concordance.Proofs.Ids
import Concordance.Proofs.NewTerms
import Concordance.Proofs.PairRuns

/-! # Limits of keys

A caller's key is checked before it is added, and a term that an index brings to its lexicon is
not. It would pass: no token is empty, and none is longer than the shortest keys that a text type
allows. So whatever the calls, every key is one that its table allows.
-/
namespace Concordance
namespace Table
variable {t : Table}

theorem isSome_find?_addKeys (t : Table) (keys : List String) (k : String) :
    ((t.addKeys keys).find? k).isSome ↔ k ∈ keys ∨ (t.find? k).isSome := by
  induction keys generalizing t with
  | nil => simp
  | cons key rest ih =>
    rw [addKeys_cons, ih, find?_addKey, List.mem_cons]
    by_cases hk : k = key <;> simp [hk]

theorem Sound.isSome_find?_erase (h : t.Sound) {id : Nat} {k : String}
    (hk : ((t.erase id).find? k).isSome) : (t.find? k).isSome := by
  rw [h.find?_erase] at hk
  split at hk
  · cases hk
  · exact hk

end Table

theorem Tokenizer.mem_terms {tokenizer : Tokenizer} {texts : List String} {term : String}
    (h : term ∈ tokenizer.terms texts) : term ≠ "" ∧ term.utf8ByteSize ≤ maxTermLength := by
  obtain ⟨text, -, hterm⟩ := List.mem_flatMap.1 h
  obtain ⟨token, htoken, rfl⟩ := List.mem_map.1 hterm
  refine ⟨fun hempty => ne_empty_of_mem_tokens htoken ?_, utf8ByteSize_le_of_mem_tokens htoken⟩
  rw [hempty]
  rfl

/-- The longest term is a key of any text type. -/
theorem DataType.maxTermLength_le_maxSize {t : DataType} (h : t.isText) :
    Tokenizer.maxTermLength ≤ t.maxSize := by
  cases t with
  | shortText | text | longText => decide
  | _ => cases h

namespace Database
variable {db db' : Database} {table i : Nat} {key : String}

theorem checkKey_eq_ok {limit : Nat} :
    checkKey limit key = .ok () ↔ key ≠ "" ∧ key.utf8ByteSize ≤ limit := by
  unfold checkKey
  by_cases hempty : key = ""
  · simp [hempty]
  · simp [hempty]

theorem keyLimit_of_kind {kind : TableKind} {keyType : DataType} {tokenizer : Tokenizer}
    (h : db.kind? table = some (.table kind (some keyType) tokenizer)) :
    db.keyLimit table = .ok keyType.maxSize := by
  obtain ⟨info, hinfo, hkind⟩ := Option.map_eq_some_iff.1 h
  simp only [keyLimit, object?, hinfo, hkind]

theorem keyLimit_of_object (h : db'.objects[table]? = db.objects[table]?) :
    db'.keyLimit table = db.keyLimit table := by
  simp only [keyLimit, object?, h]

theorem recordId?_of_table {t : Table} (ht : db.tables[table]? = some t) (key : String) :
    db.recordId? table key = t.find? key := by
  simp [recordId?, ht]

theorem table_of_recordId? (h : (db.recordId? table key).isSome) :
    ∃ t, db.tables[table]? = some t ∧ (t.find? key).isSome := by
  cases ht : db.tables[table]? with
  | none => simp [recordId?, ht] at h
  | some t => exact ⟨t, rfl, by rwa [recordId?_of_table ht] at h⟩

/-- A key that passes the checks of a caller's key. -/
def Allows (db : Database) (table : ObjectId) (key : String) : Prop :=
  ∃ limit, db.keyLimit table = .ok limit ∧ checkKey limit key = .ok ()

theorem Allows.of_object (h : db.Allows table key)
    (hobject : db'.objects[table]? = db.objects[table]?) : db'.Allows table key := by
  rwa [Allows, keyLimit_of_object hobject]

/-- The lexicon of an index allows whatever term its tokenizer takes from a text. -/
theorem Catalogued.allows_term (h : db.Catalogued) {ix : Index} (hix : db.indexes[i]? = some ix)
    {texts : List String} (hkey : key ∈ ix.tokenizer.terms texts) : db.Allows ix.lexicon key := by
  obtain ⟨kind, keyType, hkind, -, htext⟩ := lexiconTokenizer_eq_ok.1 (h.lexicon hix)
  obtain ⟨hne, hle⟩ := Tokenizer.mem_terms hkey
  exact ⟨_, keyLimit_of_kind hkind,
    checkKey_eq_ok.2 ⟨hne, Nat.le_trans hle (DataType.maxTermLength_le_maxSize htext)⟩⟩

/-! ## Keys of one call -/

/-- Tables that have keys are as they were made, and of keys that were not there they have got only
such as they allow. -/
def Admits (db db' : Database) : Prop :=
  ∀ (table : ObjectId) (key : String), (db'.recordId? table key).isSome →
    (db.recordId? table key).isSome ∧ db'.objects[table]? = db.objects[table]? ∨
      db'.Allows table key

theorem Admits.of_same (hobjects : db'.objects = db.objects) (htables : db'.tables = db.tables) :
    db.Admits db' := by
  intro table key hkey
  rw [recordId?, htables] at hkey
  exact .inl ⟨hkey, by rw [hobjects]⟩

theorem Admits.refl (db : Database) : db.Admits db := .of_same rfl rfl

theorem Admits.of_eq (h : db' = db) : db.Admits db' := h ▸ .refl db'

theorem Admits.trans {db'' : Database} (h : db.Admits db') (h' : db'.Admits db'') :
    db.Admits db'' := by
  intro table key hkey
  rcases h' table key hkey with ⟨hkey', hobject'⟩ | hallows
  · rcases h table key hkey' with ⟨hold, hobject⟩ | hallows
    · exact .inl ⟨hold, hobject'.trans hobject⟩
    · exact .inr (hallows.of_object hobject')
  · exact .inr hallows

/-- Every key is one that its table allows. -/
def Sized (db : Database) : Prop :=
  ∀ (table : ObjectId) (key : String), (db.recordId? table key).isSome → db.Allows table key

theorem Sized.admits (h : db.Sized) (ha : db.Admits db') : db'.Sized := by
  intro table key hkey
  rcases ha table key hkey with ⟨hold, hobject⟩ | hallows
  · exact (h table key hold).of_object hobject
  · exact hallows

theorem mem_termsFor {lexicon : Nat} {changes : List (ObjectId × Delta)}
    (h : key ∈ db.termsFor lexicon changes) : ∃ (i : Nat) (ix : Index) (texts : List String),
      db.indexes[i]? = some ix ∧ ix.lexicon = lexicon ∧ key ∈ ix.tokenizer.terms texts := by
  obtain ⟨change, -, hkey⟩ := List.mem_flatMap.1 h
  cases hix : db.indexes[change.1]? with
  | none => simp [hix] at hkey
  | some ix =>
    simp only [hix, Option.elim_some] at hkey
    split at hkey
    · exact ⟨change.1, ix, change.2.new, hix, ‹_›, hkey⟩
    · cases hkey

theorem WellFormed.admits_carry (h : db.WellFormed) {changes : List (ObjectId × Delta)}
    (hr : ∀ change ∈ changes, db.Receives change) : db.Admits (db.carry changes) := by
  intro table key hkey
  obtain ⟨hwf, hfed⟩ := h.carry hr
  obtain ⟨u, hu, hfind⟩ := table_of_recordId? hkey
  rw [h.tables_carry hr, Option.map_eq_some_iff] at hu
  obtain ⟨t, ht, rfl⟩ := hu
  rcases (t.isSome_find?_addKeys _ key).1 hfind with hnew | hold
  · obtain ⟨i, ix, texts, hix, rfl, hterm⟩ := mem_termsFor hnew
    exact .inr ((h.catalogued.allows_term hix hterm).of_object (by rw [hfed.objects]))
  · rw [recordId?_of_table ht]
    exact .inl ⟨hold, by rw [hfed.objects]⟩

theorem WellFormed.admits_feed (h : db.WellFormed) {source record : Nat}
    (hlive : ∀ range, db.checkSource range source = .ok () → db.isLive range record)
    (old new : List String) : db.Admits (db.feed (db.fedBy source) record old new) := by
  rw [feed_eq_carry]
  exact h.admits_carry (h.receives_fedBy hlive old new)

theorem WellFormed.admits_installSources (h : db.WellFormed) {e : HashOrder}
    {sources : List ObjectId} (hok : e.installSources db i sources = .ok db') : db.Admits db' := by
  obtain ⟨ix, deltas, hix, hcheck, hdeltas, rfl⟩ := installSources_eq_ok hok
  have hreceives := (h.receives_sources hix hcheck hdeltas).1
  have hfed := (h.carry hreceives).2
  rw [applyDeltas_eq_carry]
  obtain ⟨ix', hix', -⟩ := hfed.index' hix
  refine (h.admits_carry hreceives).trans ?_
  rw [setSourceList_of_get hix']
  exact .of_same rfl rfl

theorem WellFormed.admits_detach (h : db.WellFormed) {e : HashOrder} {gone list : List ObjectId}
    (hcall : e.detach db gone list = (.ok (), db')) : db.Admits db' := by
  induction list generalizing db with
  | nil =>
    cases hcall
    exact .refl _
  | cons i rest ih =>
    simp only [HashOrder.detach] at hcall
    split at hcall
    · rename_i db₁ hinstall
      exact (h.admits_installSources hinstall).trans (ih (h.installSources hinstall).1 hcall)
    · cases hcall

theorem Dropped.admits {gone : List ObjectId} (hd : Dropped db db' gone) : db.Admits db' := by
  intro table key hkey
  obtain ⟨t, ht, hfind⟩ := table_of_recordId? hkey
  rw [hd.tables] at ht
  split at ht
  · cases ht
  · rename_i hstays
    rw [recordId?_of_table ht, hd.objects, if_neg hstays]
    exact .inl ⟨hfind, rfl⟩

/-- A new table has no keys. -/
theorem Made.admits (hm : db.Made db') : db.Admits db' := by
  obtain ⟨_, _, _, _, _, he, hf, -⟩ := hm
  intro table key hkey
  obtain ⟨t, ht, hfind⟩ := table_of_recordId? hkey
  rw [he.tables] at ht
  split at ht
  · cases hf with
    | table =>
      cases ht
      simp [Table.empty, Table.find?] at hfind
    | _ => cases ht
  · rename_i hold
    rw [recordId?_of_table ht, he.objects, if_neg hold]
    exact .inl ⟨hfind, rfl⟩

theorem admits_withTable {t u : Table} (ht : db.tables[table]? = some t)
    (hkeys : ∀ key, (u.find? key).isSome → (t.find? key).isSome ∨ db.Allows table key) :
    db.Admits (db.withTable table u) := by
  intro id key hkey
  obtain ⟨v, hv, hfind⟩ := table_of_recordId? hkey
  simp only [withTable, FiniteMap.getElem?_insert] at hv
  split at hv
  · rename_i hid
    cases hv
    rw [hid, recordId?_of_table ht]
    exact (hkeys key hfind).imp_left fun hold => ⟨hold, rfl⟩
  · rw [recordId?_of_table hv]
    exact .inl ⟨hfind, rfl⟩

theorem admits_addRecord {outcome : Except Error RecordId}
    (hcall : db.addRecord table = (outcome, db')) : db.Admits db' := by
  rcases addRecord_cases hcall with rfl | ⟨t, ht, -, rfl⟩
  · exact .refl _
  · exact admits_withTable ht fun _ hkey => .inl hkey

/-- A caller's key is checked before anything else is done with it. -/
theorem allows_of_addRecordWithKey {record : RecordId}
    (h : (db.addRecordWithKey table key).1 = .ok record) : db.Allows table key := by
  rcases attempt_inv (Prod.ext h rfl) with ⟨_, hok, -⟩ | ⟨_, -, he, -⟩
  · obtain ⟨limit, hlimit, hok⟩ := bind_eq_ok.1 hok
    obtain ⟨_, hcheck, -⟩ := bind_eq_ok.1 hok
    exact ⟨limit, hlimit, hcheck⟩
  · cases he

theorem WellFormed.admits_addRecordWithKey (h : db.WellFormed)
    {outcome : Except Error RecordId} (hcall : db.addRecordWithKey table key = (outcome, db')) :
    db.Admits db' := by
  rcases addRecordWithKey_cases hcall with rfl | ⟨t, kind, keyType, tokenizer, ht, hkind, rfl, rfl⟩
  · exact .refl _
  · have hsound := h.filled.sound ht
    have hgrows := hsound.grows_addKey key
    have hallows := allows_of_addRecordWithKey (congrArg Prod.fst hcall)
    have hentered : db.Admits (db.withTable table (t.addKey key).2) := by
      refine admits_withTable ht fun k hk => ?_
      rw [Table.find?_addKey] at hk
      split at hk
      · rename_i hkey
        exact .inr (hkey ▸ hallows)
      · exact .inl hk
    cases hfind : t.find? key with
    | some id => simpa using hentered
    | none =>
      have hkey := h.catalogued.hasKey_of_keyType ht hkind
      have hwf := h.withTable ht hgrows (hsound.addKey hkey key)
      have hid : (t.addKey key).1 = t.next := by rw [Table.addKey_of_new hfind]
      have hfeed := hwf.admits_feed (fun range => h.isLive_newKey ht hfind) [] [key]
      simpa [hid] using hentered.trans hfeed

theorem WellFormed.admits_setValue (h : db.WellFormed) {column record : Nat} {v : Json}
    {outcome : Except Error Unit} (hcall : db.setValue column record v = (outcome, db')) :
    db.Admits db' := by
  rcases h.setValue_cases hcall with ⟨e, -, rfl⟩ |
    ⟨-, table, valueType, values, texts, hkind, hlive, -, -, -, rfl⟩
  · exact .refl _
  · rw [feed_withColumn_comm]
    exact (h.admits_feed (fun range => isLive_of_checkSource hkind hlive) _ texts).trans
      (.of_same rfl rfl)

theorem admits_forgetRecord {t : Table} (ht : db.tables[table]? = some t) (hsound : t.Sound)
    (record : Nat) : db.Admits (db.forgetRecord table record) := by
  intro id key hkey
  obtain ⟨u, hu, hfind⟩ := table_of_recordId? hkey
  rw [tables_forgetRecord ht] at hu
  split at hu
  · rename_i hid
    cases hu
    rw [hid, recordId?_of_table ht]
    exact .inl ⟨hsound.isSome_find?_erase hfind, rfl⟩
  · rw [recordId?_of_table hu]
    exact .inl ⟨hfind, rfl⟩

/-- Retracting brings no texts, and so no terms. -/
theorem WellFormed.admits_deleteRecord (h : db.WellFormed) {record : Nat}
    {outcome : Except Error Unit} (hcall : db.deleteRecord table record = (outcome, db')) :
    db.Admits db' := by
  rcases h.deleteRecord_cases hcall with ⟨e, -, rfl⟩ |
    ⟨-, t, db₁, -, hvalues, hwf₁, -, -, ht, -, -, rfl⟩
  · exact .refl _
  · have hkey := retracted_retractKey hwf₁.posted.neat (hwf₁.catalogued.feedsOver_table ht) record
    have hretracted := (retracted_retractValues h.posted.neat (fun c hc => mem_columnsOf.1 hc)
      (fun c hc => (mem_columnsOf.1 hc).elim fun _ => h.catalogued.feedsOver_column) hvalues).trans
        hkey
    have ht₁ : (db₁.retractKey table record).tables[table]? = some t := hkey.tables.symm ▸ ht
    exact (Admits.of_same hretracted.objects hretracted.tables).trans
      (admits_forgetRecord ht₁ (hwf₁.filled.sound ht) record)

theorem WellFormed.admits_removeObject (h : db.WellFormed) {e : HashOrder} {id : Nat}
    {outcome : Except Error Unit} (hcall : e.removeObject db id = (outcome, db')) :
    db.Admits db' := by
  rcases h.removeObject_cases hcall with
    ⟨err, -, rfl⟩ | ⟨-, gone, db₁, -, hdetach, -, -, -, -, -, rfl⟩
  · exact .refl _
  · exact (h.admits_detach hdetach).trans (dropped_foldl db₁ gone).admits

theorem WellFormed.admits_defineIndex (h : db.WellFormed) {e : HashOrder} {lexicon range : Nat}
    {name : String} {config : IndexConfig} {outcome : Except Error ObjectId}
    (hcall : e.defineIndex db lexicon name range config = (outcome, db')) : db.Admits db' := by
  rcases h.defineIndex_cases hcall with ⟨err, -, -, rfl⟩ |
    ⟨plan, -, ⟨err, -, rfl⟩ | ⟨-, made, hmade, -, hinstall⟩⟩
  · exact .refl _
  · exact .of_same rfl rfl
  · exact hmade.admits.trans ((hmade.wellFormed h).admits_installSources hinstall)

theorem WellFormed.admits_indexUpdate (h : db.WellFormed) {record sec : Nat}
    {old new : Option Buffer} {outcome : Except Error Unit}
    (hcall : db.indexUpdate i record sec old new = (outcome, db')) : db.Admits db' := by
  rcases indexUpdate_cases hcall with rfl | ⟨ix, oldTexts, newTexts, -, hix, hlive, rfl⟩
  · exact .refl _
  · have hreceives : db.Receives (i, ⟨record, sec, oldTexts, newTexts⟩) := .of_get hix hlive
    exact h.admits_carry fun change hc => by rwa [List.mem_singleton.1 hc]

/-- A call brings no key that its table does not allow. -/
theorem WellFormed.admits (h : db.WellFormed) {call : Call} (hcall : db.OwnFiles call) :
    db.Admits (db.after call) := by
  cases call with
  | createTable name config =>
    rcases h.createTable_cases (Prod.eta (db.createTable name config)).symm with
      ⟨-, heq⟩ | ⟨-, hmade⟩
    · exact .of_eq heq
    · exact hmade.admits
  | defineColumn table name valueType =>
    rcases h.defineColumn_cases (Prod.eta (db.defineColumn table name valueType)).symm with
      ⟨-, heq⟩ | ⟨-, hmade⟩
    · exact .of_eq heq
    · exact hmade.admits
  | defineIndex lexicon name range config e => exact h.admits_defineIndex (Prod.eta _).symm
  | addRecord table => exact admits_addRecord (Prod.eta _).symm
  | addRecordWithKey table key e =>
    rw [h.after_addRecordWithKey]
    exact h.admits_addRecordWithKey (Prod.eta _).symm
  | setValue column record v e =>
    rw [h.after_setValue]
    exact h.admits_setValue (Prod.eta _).symm
  | deleteRecord table record e =>
    rw [h.after_deleteRecord]
    exact h.admits_deleteRecord (Prod.eta _).symm
  | setSourceInfo index sources e =>
    rcases setSourceInfo_cases (Prod.eta (e.setSourceInfo db index sources)).symm with
      heq | ⟨ids, hinstall⟩
    · exact .of_eq heq
    · exact h.admits_installSources hinstall
  | indexUpdate index record sec old new => exact h.admits_indexUpdate (Prod.eta _).symm
  | removeObject id e => exact h.admits_removeObject (Prod.eta _).symm
  | reopen image =>
    obtain ⟨hsaved, hn⟩ := hcall
    simp only [Database.after]
    split
    · rename_i db' hload
      have hrest := (h.reread_of_load hn hsaved hload).rest
      exact .of_same (by rw [hrest]) (by rw [hrest])
    · exact .refl db

/-! ## Keys of a run -/

theorem sized_new : new.Sized := by
  intro table key hkey
  obtain ⟨t, ht, -⟩ := table_of_recordId? hkey
  simp [tables_new] at ht

theorem Reached.sized (h : Reached OwnFiles db) : db.Sized := by
  induction h with
  | new => exact sized_new
  | after call hreached hcall ih =>
    exact ih.admits (hreached.wellFormed_of_ownFiles.admits hcall)

/-- In every state that a run reaches, whichever way a key came in, it is a key of a table with a
text type for its keys, it is not empty, and it has no more bytes than that type allows. The table
takes it from a caller as well, who is answered the record that it stands for. -/
theorem key_allowed (h : Reached OwnFiles db) {record : Nat}
    (hkey : db.recordKey? table record = some key ∨ db.recordId? table key = some record) :
    ∃ kind keyType tokenizer, db.kind? table = some (.table kind (some keyType) tokenizer) ∧
      kind.hasKey ∧ keyType.isText ∧ key ≠ "" ∧ key.utf8ByteSize ≤ keyType.maxSize ∧
        db.keyLimit table = .ok keyType.maxSize ∧
          db.addRecordWithKey table key = (.ok record, db) := by
  have hwf := h.wellFormed_of_ownFiles
  obtain ⟨t, ht, hfind⟩ : ∃ t, db.tables[table]? = some t ∧ t.find? key = some record := by
    cases ht : db.tables[table]? with
    | none => simp [recordKey?, recordId?, ht] at hkey
    | some t =>
      rw [recordKey?_of_table ht, recordId?_of_table ht, ← (hwf.filled.sound ht).find?_iff,
        or_self] at hkey
      exact ⟨t, rfl, hkey⟩
  obtain ⟨limit, hlimit, hcheck⟩ := h.sized table key (by rw [recordId?_of_table ht, hfind]; rfl)
  obtain ⟨kind, keyType, tokenizer, hkind, rfl⟩ := keyLimit_eq_ok hlimit
  obtain ⟨hne, hle⟩ := checkKey_eq_ok.1 hcheck
  have hkeyed := hwf.catalogued.hasKey_of_keyType ht hkind
  rw [hwf.catalogued.kind_eq ht hkind] at hkeyed
  obtain ⟨-, hvalid⟩ := hwf.catalogued.tableData hkind
  have htext : keyType.isText := by
    simp only [TableConfig.validate, hkeyed] at hvalid
    split at hvalid
    · assumption
    · cases hvalid
  refine ⟨kind, keyType, tokenizer, hkind, hkeyed, htext, hne, hle, hlimit, ?_⟩
  have hself : ({ db with tables := db.tables.insert table t } : Database) = db := withTable_self ht
  have htable : db.table table = .ok t := table_eq_ok.2 ht
  simp [addRecordWithKey, attempt, hlimit, hcheck, htable, hfind, Table.addKey_of_find? hfind,
    hself, bind, Except.bind, pure, Except.pure]

/-- The key came in with a note's text. -/
theorem key_allowed_notes : Reached OwnFiles notes ∧ notes.recordId? 256 "to" = some 1 ∧
    ∃ kind keyType tokenizer, notes.kind? 256 = some (.table kind (some keyType) tokenizer) ∧
      kind.hasKey ∧ keyType.isText ∧ "to" ≠ "" ∧ "to".utf8ByteSize ≤ keyType.maxSize ∧
        notes.keyLimit 256 = .ok keyType.maxSize ∧
          notes.addRecordWithKey 256 "to" = (.ok 1, notes) := by
  have hkey : notes.recordId? 256 "to" = some 1 := by decide +kernel
  exact ⟨reached_ownFiles_notes, hkey, key_allowed reached_ownFiles_notes (.inr hkey)⟩

end Database
end Concordance
