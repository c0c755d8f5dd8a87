import Concordance.Database.Define
import Concordance.Proofs.FeedCounts

/-! # Well-formed databases

What every database that calls have made satisfies: the catalog and the stores agree and nothing
refers to what is gone, names are those of the objects, values belong to live records and have
texts, and postings name terms and records that are there.
-/
namespace Concordance

/-- A value that a column of the type takes and an index can read. -/
def Json.Indexable (valueType : DataType) (v : Json) : Prop :=
  v.isNull = false ∧ v.checkType valueType = .ok () ∧ ∃ texts, v.indexTexts = .ok texts

/-- What an index is made with. -/
def Index.header (ix : Index) : ObjectId × ObjectId × IndexFlags × Tokenizer :=
  (ix.lexicon, ix.range, ix.flags, ix.tokenizer)

namespace Database
variable {db db' : Database}

/-- The kind that the catalog gives for an id. -/
def kind? (db : Database) (id : Nat) : Option ObjectKind := db.objects[id]?.map ObjectInfo.kind

theorem kind?_of_get {id : Nat} {info : ObjectInfo} (h : db.objects[id]? = some info) :
    db.kind? id = some info.kind := by
  simp [kind?, h]

theorem value?_eq_some {column record : Nat} {v : Json} : db.value? column record = some v ↔
    ∃ values, db.columns[column]? = some values ∧ values[record]? = some v := by
  simp only [value?]
  cases db.columns[column]? with
  | none => simp
  | some values => simp

/-- Catalog and stores tell of the same objects, and what an object refers to is there. -/
structure Catalogued (db : Database) : Prop where
  id_eq : ∀ {id : Nat} {info}, db.objects[id]? = some info → info.id = id
  id_lt : ∀ {id : Nat} {info}, db.objects[id]? = some info → id < db.nextId
  user_le : ∀ {id : Nat} {info}, db.objects[id]? = some info → info.isType = false →
    firstUserId ≤ id
  next_le : firstUserId ≤ db.nextId
  builtIn : ∀ t : DataType, db.objects[t.id]? = some ⟨t.id, some t.name, .type t⟩
  type_eq : ∀ {id : Nat} {t}, db.kind? id = some (.type t) → id = t.id
  table : ∀ {id : Nat} {t}, db.tables[id]? = some t →
    ∃ keyType tokenizer, db.kind? id = some (.table t.kind keyType tokenizer)
  tableData : ∀ {id : Nat} {kind keyType tokenizer},
    db.kind? id = some (.table kind keyType tokenizer) →
      (∃ t, db.tables[id]? = some t) ∧ TableConfig.validate ⟨kind, keyType, tokenizer⟩ = .ok ()
  column : ∀ {id : Nat} {values}, db.columns[id]? = some values →
    ∃ table valueType, db.kind? id = some (.column table valueType)
  columnData : ∀ {id table : Nat} {valueType}, db.kind? id = some (.column table valueType) →
    (∃ values, db.columns[id]? = some values) ∧ ∃ t, db.tables[table]? = some t
  index : ∀ {id : Nat} {ix}, db.indexes[id]? = some ix →
    db.kind? id = some (.index ix.lexicon ix.range ix.flags)
  indexData : ∀ {id lexicon range : Nat} {flags}, db.kind? id = some (.index lexicon range flags) →
    ∃ ix, db.indexes[id]? = some ix
  lexicon : ∀ {id : Nat} {ix}, db.indexes[id]? = some ix →
    db.lexiconTokenizer ix.lexicon = .ok ix.tokenizer
  range : ∀ {id : Nat} {ix}, db.indexes[id]? = some ix → ∃ t, db.tables[ix.range]? = some t
  source : ∀ {id : Nat} {ix}, db.indexes[id]? = some ix →
    ∀ s ∈ ix.sources, db.checkSource ix.range s = .ok ()

/-- Tables are sound, and each value is one that its column takes, of a live record. -/
structure Filled (db : Database) : Prop where
  sound : ∀ {id : Nat} {t}, db.tables[id]? = some t → t.Sound
  value : ∀ {column record : Nat} {v}, db.value? column record = some v →
    ∃ table valueType, db.kind? column = some (.column table valueType) ∧
      db.isLive table record ∧ v.Indexable valueType

/-- Postings are neat and name terms of the lexicon and live records of the range. -/
structure Posted (db : Database) : Prop where
  neat : ∀ {id : Nat} {ix}, db.indexes[id]? = some ix → ix.postings.Neat
  matched : ∀ {id : Nat} {ix lexicon}, db.indexes[id]? = some ix →
    db.tables[ix.lexicon]? = some lexicon → Matched lexicon ix.postings
  live : ∀ {id : Nat} {ix}, db.indexes[id]? = some ix → ∀ {term record sec position : Nat},
    position ∈ ix.postings.positions term record sec →
      db.isLive ix.range record ∧ position ≤ wordMax

/-- The names are exactly those that the objects carry. -/
structure Named (db : Database) : Prop where
  name_iff : ∀ {name : String} {id : Nat}, db.names[name]? = some id ↔
    ∃ info, db.objects[id]? = some info ∧ info.name = some name

structure WellFormed (db : Database) : Prop where
  catalogued : db.Catalogued
  filled : db.Filled
  posted : db.Posted
  named : db.Named

/-! ## Reading the catalog -/

theorem lexiconTokenizer_eq_ok {lexicon : Nat} {tokenizer : Tokenizer} :
    db.lexiconTokenizer lexicon = .ok tokenizer ↔
      ∃ kind keyType, db.kind? lexicon = some (.table kind (some keyType) tokenizer) ∧
        kind.hasKey ∧ keyType.isText := by
  unfold lexiconTokenizer kind? object?
  cases db.objects[lexicon]? with
  | none => simp
  | some info =>
    obtain ⟨id, name, kind⟩ := info
    cases kind with
    | table kind keyType tok =>
      cases keyType with
      | none => simp
      | some keyType =>
        constructor
        · intro h
          dsimp only at h
          split at h
          · rename_i hvalid
            cases h
            exact ⟨kind, keyType, rfl, (Bool.and_eq_true _ _).mp hvalid⟩
          · cases h
        · rintro ⟨kind', keyType', hkind, hkey, htext⟩
          cases hkind
          simp [hkey, htext]
    | _ => simp

theorem checkSource_eq_ok {range source : Nat} :
    db.checkSource range source = .ok () ↔
      (∃ valueType, db.kind? source = some (.column range valueType)) ∨
        source = range ∧ ∃ kind keyType tokenizer,
          db.kind? source = some (.table kind keyType tokenizer) := by
  unfold checkSource kind? object?
  cases db.objects[source]? with
  | none => simp
  | some info =>
    obtain ⟨id, name, kind⟩ := info
    cases kind with
    | column table valueType => by_cases ht : table = range <;> simp [ht]
    | table kind keyType tok => by_cases ht : source = range <;> simp [ht]
    | _ => simp

theorem lexiconTokenizer_of_kind {lexicon : Nat} {tokenizer : Tokenizer}
    (hkind : ∀ {kind}, db.kind? lexicon = some kind → db'.kind? lexicon = some kind)
    (h : db.lexiconTokenizer lexicon = .ok tokenizer) :
    db'.lexiconTokenizer lexicon = .ok tokenizer := by
  obtain ⟨kind, keyType, hk, hkey, htext⟩ := lexiconTokenizer_eq_ok.1 h
  exact lexiconTokenizer_eq_ok.2 ⟨kind, keyType, hkind hk, hkey, htext⟩

theorem checkSource_of_kind {range source : Nat}
    (hkind : ∀ {kind}, db.kind? source = some kind → db'.kind? source = some kind)
    (h : db.checkSource range source = .ok ()) : db'.checkSource range source = .ok () := by
  rcases checkSource_eq_ok.1 h with ⟨valueType, hk⟩ | ⟨heq, kind, keyType, tokenizer, hk⟩
  · exact checkSource_eq_ok.2 (.inl ⟨valueType, hkind hk⟩)
  · exact checkSource_eq_ok.2 (.inr ⟨heq, kind, keyType, tokenizer, hkind hk⟩)

/-- The catalog has the kind of a table right. -/
theorem Catalogued.kind_eq (h : db.Catalogued) {id : Nat} {t : Table} {kind : TableKind}
    {keyType : Option DataType} {tokenizer : Tokenizer} (ht : db.tables[id]? = some t)
    (hkind : db.kind? id = some (.table kind keyType tokenizer)) : t.kind = kind := by
  obtain ⟨keyType', tokenizer', hkind'⟩ := h.table ht
  rw [hkind] at hkind'
  cases hkind'
  rfl

/-- A table with a type for its keys has keys. -/
theorem Catalogued.hasKey_of_keyType (h : db.Catalogued) {id : Nat} {t : Table} {kind : TableKind}
    {keyType : DataType} {tokenizer : Tokenizer} (ht : db.tables[id]? = some t)
    (hkind : db.kind? id = some (.table kind (some keyType) tokenizer)) : t.kind.hasKey := by
  have hvalid := (h.tableData hkind).2
  rw [h.kind_eq ht hkind]
  cases hkey : kind.hasKey with
  | true => rfl
  | false =>
    simp only [TableConfig.validate, hkey] at hvalid
    cases hvalid

/-- The lexicon of an index is a table with keys. -/
theorem Catalogued.lexicon_table (h : db.Catalogued) {id : Nat} {ix : Index}
    (hix : db.indexes[id]? = some ix) :
    ∃ t, db.tables[ix.lexicon]? = some t ∧ t.kind.hasKey := by
  obtain ⟨kind, keyType, hkind, hkey, -⟩ := lexiconTokenizer_eq_ok.1 (h.lexicon hix)
  obtain ⟨t, ht⟩ := (h.tableData hkind).1
  exact ⟨t, ht, h.kind_eq ht hkind ▸ hkey⟩

/-- A table is a source for its own keys only. -/
theorem Catalogued.eq_of_checkSource (h : db.Catalogued) {range table : Nat} {t : Table}
    (ht : db.tables[table]? = some t) (hs : db.checkSource range table = .ok ()) :
    table = range := by
  rcases checkSource_eq_ok.1 hs with ⟨valueType, hkind⟩ | ⟨heq, -⟩
  · obtain ⟨keyType, tokenizer, hkind'⟩ := h.table ht
    rw [hkind] at hkind'
    cases hkind'
  · exact heq

theorem Catalogued.no_column_of_table (h : db.Catalogued) {id : Nat} {t : Table}
    (ht : db.tables[id]? = some t) : db.columns[id]? = none := by
  obtain ⟨keyType, tokenizer, hkind⟩ := h.table ht
  cases hc : db.columns[id]? with
  | none => rfl
  | some values =>
    obtain ⟨table, valueType, hkind'⟩ := h.column hc
    rw [hkind] at hkind'
    cases hkind'

theorem Catalogued.no_object (h : db.Catalogued) {id : Nat} (hid : db.nextId ≤ id) :
    db.objects[id]? = none := by
  cases hobj : db.objects[id]? with
  | none => rfl
  | some info => exact absurd (h.id_lt hobj) (Nat.not_lt.2 hid)

theorem Catalogued.no_table (h : db.Catalogued) {id : Nat} (hid : db.nextId ≤ id) :
    db.tables[id]? = none := by
  cases ht : db.tables[id]? with
  | none => rfl
  | some t =>
    obtain ⟨keyType, tokenizer, hkind⟩ := h.table ht
    simp [kind?, h.no_object hid] at hkind

theorem Catalogued.no_column (h : db.Catalogued) {id : Nat} (hid : db.nextId ≤ id) :
    db.columns[id]? = none := by
  cases hc : db.columns[id]? with
  | none => rfl
  | some values =>
    obtain ⟨table, valueType, hkind⟩ := h.column hc
    simp [kind?, h.no_object hid] at hkind

theorem Catalogued.no_index (h : db.Catalogued) {id : Nat} (hid : db.nextId ≤ id) :
    db.indexes[id]? = none := by
  cases hix : db.indexes[id]? with
  | none => rfl
  | some ix =>
    have hkind := h.index hix
    simp [kind?, h.no_object hid] at hkind

/-! ## Calls that leave the catalog alone -/

/-- The same objects, with whatever data. -/
structure SameCatalog (db db' : Database) : Prop where
  objects : db'.objects = db.objects
  names : db'.names = db.names
  nextId : db'.nextId = db.nextId
  tables : ∀ id : Nat, db'.tables[id]?.map Table.kind = db.tables[id]?.map Table.kind
  columns : ∀ id : Nat, db'.columns[id]?.isSome = db.columns[id]?.isSome
  indexes : ∀ id : Nat, db'.indexes[id]?.map Index.header = db.indexes[id]?.map Index.header

theorem SameCatalog.refl (db : Database) : db.SameCatalog db :=
  ⟨rfl, rfl, rfl, fun _ => rfl, fun _ => rfl, fun _ => rfl⟩

theorem SameCatalog.trans {db'' : Database} (h : db.SameCatalog db') (h' : db'.SameCatalog db'') :
    db.SameCatalog db'' where
  objects := h'.objects.trans h.objects
  names := h'.names.trans h.names
  nextId := h'.nextId.trans h.nextId
  tables id := (h'.tables id).trans (h.tables id)
  columns id := (h'.columns id).trans (h.columns id)
  indexes id := (h'.indexes id).trans (h.indexes id)

theorem SameCatalog.kind? (h : db.SameCatalog db') (id : Nat) : db'.kind? id = db.kind? id := by
  rw [Database.kind?, h.objects, Database.kind?]

theorem SameCatalog.table (h : db.SameCatalog db') {id : Nat} {t : Table}
    (ht : db'.tables[id]? = some t) : ∃ u, db.tables[id]? = some u ∧ u.kind = t.kind := by
  have hmap := h.tables id
  rw [ht, Option.map_some, eq_comm, Option.map_eq_some_iff] at hmap
  exact hmap

theorem SameCatalog.symm (h : db.SameCatalog db') : db'.SameCatalog db :=
  ⟨h.objects.symm, h.names.symm, h.nextId.symm, fun id => (h.tables id).symm,
    fun id => (h.columns id).symm, fun id => (h.indexes id).symm⟩

theorem SameCatalog.index (h : db.SameCatalog db') {id : Nat} {ix : Index}
    (hix : db'.indexes[id]? = some ix) : ∃ jx, db.indexes[id]? = some jx ∧
      jx.lexicon = ix.lexicon ∧ jx.range = ix.range ∧ jx.flags = ix.flags ∧
        jx.tokenizer = ix.tokenizer := by
  have hmap := h.indexes id
  rw [hix, Option.map_some, eq_comm, Option.map_eq_some_iff] at hmap
  obtain ⟨jx, hjx, heq⟩ := hmap
  simp only [Index.header, Prod.mk.injEq] at heq
  exact ⟨jx, hjx, heq⟩

theorem SameCatalog.lexiconTokenizer (h : db.SameCatalog db') (id : Nat) :
    db'.lexiconTokenizer id = db.lexiconTokenizer id := by
  unfold Database.lexiconTokenizer object?
  rw [h.objects]

theorem SameCatalog.checkSource (h : db.SameCatalog db') (range source : Nat) :
    db'.checkSource range source = db.checkSource range source := by
  unfold Database.checkSource object?
  rw [h.objects]

theorem Catalogued.of_same (h : db.Catalogued) (hs : db.SameCatalog db')
    (hsource : ∀ {id : Nat} {ix}, db'.indexes[id]? = some ix →
      ∀ s ∈ ix.sources, db.checkSource ix.range s = .ok ()) : db'.Catalogued where
  id_eq hid := h.id_eq (by rwa [hs.objects] at hid)
  id_lt hid := by rw [hs.nextId]; exact h.id_lt (by rwa [hs.objects] at hid)
  user_le hid := h.user_le (by rwa [hs.objects] at hid)
  next_le := by rw [hs.nextId]; exact h.next_le
  builtIn t := by rw [hs.objects]; exact h.builtIn t
  type_eq hkind := h.type_eq (by rwa [hs.kind?] at hkind)
  table ht := by
    obtain ⟨u, hu, hkind⟩ := hs.table ht
    rw [hs.kind?, ← hkind]
    exact h.table hu
  tableData hkind := by
    rw [hs.kind?] at hkind
    obtain ⟨⟨t, ht⟩, hvalid⟩ := h.tableData hkind
    obtain ⟨u, hu, -⟩ := hs.symm.table ht
    exact ⟨⟨u, hu⟩, hvalid⟩
  column hc := by
    rw [hs.kind?]
    obtain ⟨values, hvalues⟩ := Option.isSome_iff_exists.1
      ((hs.columns _).symm.trans (Option.isSome_iff_exists.2 ⟨_, hc⟩))
    exact h.column hvalues
  columnData hkind := by
    rw [hs.kind?] at hkind
    obtain ⟨⟨values, hvalues⟩, t, ht⟩ := h.columnData hkind
    obtain ⟨u, hu, -⟩ := hs.symm.table ht
    exact ⟨Option.isSome_iff_exists.1
      ((hs.columns _).trans (Option.isSome_iff_exists.2 ⟨_, hvalues⟩)), u, hu⟩
  index hix := by
    obtain ⟨jx, hjx, hl, hr, hf, -⟩ := hs.index hix
    rw [hs.kind?, ← hl, ← hr, ← hf]
    exact h.index hjx
  indexData hkind := by
    rw [hs.kind?] at hkind
    obtain ⟨ix, hix⟩ := h.indexData hkind
    obtain ⟨jx, hjx, -⟩ := hs.symm.index hix
    exact ⟨jx, hjx⟩
  lexicon hix := by
    obtain ⟨jx, hjx, hl, -, -, ht⟩ := hs.index hix
    rw [hs.lexiconTokenizer, ← hl, ← ht]
    exact h.lexicon hjx
  range hix := by
    obtain ⟨jx, hjx, -, hr, -, -⟩ := hs.index hix
    obtain ⟨t, ht⟩ := h.range hjx
    obtain ⟨u, hu, -⟩ := hs.symm.table ht
    exact ⟨u, hr ▸ hu⟩
  source hix s hmem := by
    rw [hs.checkSource]
    exact hsource hix s hmem

theorem Named.of_same (h : db.Named) (hs : db.SameCatalog db') : db'.Named where
  name_iff := by
    intro name id
    rw [hs.names, hs.objects]
    exact h.name_iff

end Database
end Concordance
