import Concordance.Proofs.Counters

/-! # Integrity of the catalog

What can be relied on when the catalog and the stores of a database are read together: names lead to
objects and nowhere else, every object has its data and all data has its object, and whatever an
object refers to is there. No run loses any of it, though removing one object may take others with
it and failed calls may have begun their changes.
-/
namespace Concordance.Database
variable {db : Database}

/-- The id is that of an object that is a table. -/
def TableObject (db : Database) (id : Nat) : Prop :=
  ∃ kind keyType tokenizer, db.kind? id = some (.table kind keyType tokenizer)

/-- The id is that of an object that is a column with values. -/
def ColumnObject (db : Database) (id : Nat) : Prop :=
  ∃ table valueType, db.kind? id = some (.column table valueType)

/-- The id is that of an object that is an index. -/
def IndexObject (db : Database) (id : Nat) : Prop :=
  ∃ lexicon range flags, db.kind? id = some (.index lexicon range flags)

/-- The objects, their names and their data belong together, and no reference dangles. -/
structure Integral (db : Database) : Prop where
  /-- Looking up a name gives the object that carries it. -/
  lookup : ∀ {name : String} {info}, db.lookup? name = some info ↔
    db.object? info.id = some info ∧ info.name = some name
  /-- A name is taken only as long as its object is there. -/
  taken : ∀ {name : String} {id : Nat}, db.names[name]? = some id →
    ∃ info, db.lookup? name = some info ∧ info.id = id
  unique : ∀ {id id' : Nat} {info info'}, db.object? id = some info → db.object? id' = some info' →
    info.name.isSome → info.name = info'.name → id = id'
  own : ∀ {id : Nat} {info}, db.object? id = some info → info.id = id
  /-- The ids of what users made. -/
  user : ∀ {id : Nat} {info}, db.object? id = some info → info.isType = false →
    firstUserId ≤ id ∧ id < db.nextId
  /-- No id counter has got past the last word. -/
  counted : db.Counted
  tables : ∀ {id : Nat}, (∃ t, db.tables[id]? = some t) ↔ db.TableObject id
  columns : ∀ {id : Nat}, (∃ values, db.columns[id]? = some values) ↔ db.ColumnObject id
  indexes : ∀ {id : Nat}, (∃ ix, db.indexes[id]? = some ix) ↔ db.IndexObject id
  /-- A table's data is of the kind that its object says. -/
  shape : ∀ {id : Nat} {t}, db.tables[id]? = some t →
    ∃ keyType tokenizer, db.kind? id = some (.table t.kind keyType tokenizer)
  owner : ∀ {id table : Nat} {valueType}, db.kind? id = some (.column table valueType) →
    db.TableObject table
  /-- What an index is made with is what its object says. -/
  header : ∀ {id : Nat} {ix}, db.indexes[id]? = some ix →
    db.kind? id = some (.index ix.lexicon ix.range ix.flags)
  /-- A lexicon has texts for keys, and indexes split with its tokenizer. -/
  lexicon : ∀ {id : Nat} {ix}, db.indexes[id]? = some ix → ∃ kind keyType,
    db.kind? ix.lexicon = some (.table kind (some keyType) ix.tokenizer) ∧
      kind.hasKey ∧ keyType.isText
  range : ∀ {id : Nat} {ix}, db.indexes[id]? = some ix → db.TableObject ix.range
  source : ∀ {id : Nat} {ix}, db.indexes[id]? = some ix → ∀ s ∈ ix.sources,
    s = ix.range ∨ ∃ valueType, db.kind? s = some (.column ix.range valueType)
  value : ∀ {column record : Nat} {v}, db.value? column record = some v →
    ∃ table valueType, db.kind? column = some (.column table valueType) ∧
      db.isLive table record ∧ v.isNull = false ∧
        (v.isScalarOf valueType ∨
          ∃ items, v = .array items ∧ ∀ item ∈ items, item.isScalarOf valueType)

theorem lookup?_eq_some {name : String} {info : ObjectInfo} : db.lookup? name = some info ↔
    ∃ id, db.names[name]? = some id ∧ db.object? id = some info := by
  simp only [lookup?]
  cases db.names[name]? with
  | none => simp
  | some id => simp

namespace WellFormed

theorem lookup?_iff (h : db.WellFormed) {name : String} {info : ObjectInfo} :
    db.lookup? name = some info ↔ db.object? info.id = some info ∧ info.name = some name := by
  rw [lookup?_eq_some]
  constructor
  · rintro ⟨id, hid, hobject⟩
    obtain ⟨info', hobject', hname⟩ := h.named.name_iff.1 hid
    cases hobject.symm.trans hobject'
    rw [h.catalogued.id_eq hobject]
    exact ⟨hobject, hname⟩
  · rintro ⟨hobject, hname⟩
    exact ⟨info.id, h.named.name_iff.2 ⟨info, hobject, hname⟩, hobject⟩

theorem name_unique (h : db.WellFormed) {id id' : Nat} {info info' : ObjectInfo}
    (hobject : db.object? id = some info) (hobject' : db.object? id' = some info')
    (hname : info.name.isSome) (heq : info.name = info'.name) : id = id' := by
  obtain ⟨name, hname⟩ := Option.isSome_iff_exists.1 hname
  have hid := h.named.name_iff.2 ⟨info, hobject, hname⟩
  have hid' := h.named.name_iff.2 ⟨info', hobject', heq ▸ hname⟩
  exact Option.some.inj (hid.symm.trans hid')

theorem source_cases (h : db.WellFormed) {id : Nat} {ix : Index}
    (hix : db.indexes[id]? = some ix) {s : Nat} (hs : s ∈ ix.sources) :
    s = ix.range ∨ ∃ valueType, db.kind? s = some (.column ix.range valueType) := by
  rcases checkSource_eq_ok.1 (h.catalogued.source hix s hs) with hcolumn | ⟨heq, -⟩
  · exact .inr hcolumn
  · exact .inl heq

theorem tableObject (h : db.WellFormed) {id : Nat} {t : Table} (ht : db.tables[id]? = some t) :
    db.TableObject id := by
  obtain ⟨keyType, tokenizer, hkind⟩ := h.catalogued.table ht
  exact ⟨t.kind, keyType, tokenizer, hkind⟩

theorem integral (h : db.WellFormed) (hcounted : db.Counted) : db.Integral where
  lookup := h.lookup?_iff
  taken hid := by
    obtain ⟨info, hobject, -⟩ := h.named.name_iff.1 hid
    exact ⟨info, lookup?_eq_some.2 ⟨_, hid, hobject⟩, h.catalogued.id_eq hobject⟩
  unique := h.name_unique
  own := h.catalogued.id_eq
  user hobject huser := ⟨h.catalogued.user_le hobject huser, h.catalogued.id_lt hobject⟩
  counted := hcounted
  tables {id} := by
    constructor
    · rintro ⟨t, ht⟩
      exact h.tableObject ht
    · rintro ⟨kind, keyType, tokenizer, hkind⟩
      exact (h.catalogued.tableData hkind).1
  columns {id} := by
    constructor
    · rintro ⟨values, hvalues⟩
      exact h.catalogued.column hvalues
    · rintro ⟨table, valueType, hkind⟩
      exact (h.catalogued.columnData hkind).1
  indexes {id} := by
    constructor
    · rintro ⟨ix, hix⟩
      exact ⟨_, _, _, h.catalogued.index hix⟩
    · rintro ⟨lexicon, range, flags, hkind⟩
      exact h.catalogued.indexData hkind
  shape := h.catalogued.table
  owner hkind := by
    obtain ⟨-, t, ht⟩ := h.catalogued.columnData hkind
    exact h.tableObject ht
  header := h.catalogued.index
  lexicon hix := lexiconTokenizer_eq_ok.1 (h.catalogued.lexicon hix)
  range hix := by
    obtain ⟨t, ht⟩ := h.catalogued.range hix
    exact h.tableObject ht
  source hix _ hs := h.source_cases hix hs
  value hv := by
    obtain ⟨table, valueType, hkind, hlive, hindexable⟩ := h.filled.value hv
    obtain ⟨hnull, hv⟩ := Json.indexable_iff.1 hindexable
    exact ⟨table, valueType, hkind, hlive, hnull, hv⟩

end WellFormed

/-- No run in which the counters stay words breaks the catalog, be its calls refused or not and the
database reopened or not. -/
theorem integral_of_reached (h : Reached Counting db) : db.Integral :=
  h.ownFiles.wellFormed_of_ownFiles.integral h.counted

/-- The notes with a title and without their bodies, after an attempt to remove them all. -/
def titled : Database :=
  ((notes.after (.setValue 258 1 (.text "Hamlet"))).after (.removeObject 257)).after
    (.removeObject 259)

theorem integral_of_reached_titled :
    (titled.after (.reopen (Image.ofDatabase titled))).Integral ∧
      titled.lookup? "Notes" ≠ none ∧ titled.lookup? "Notes.body" = none ∧
        titled.indexes[260]?.map Index.sources = some [258] := by
  have htitled : Reached Counting titled := by
    refine .after _ (.after _ (.after _ reached_counting_notes ?_) ?_) ?_
    all_goals exact ⟨trivial, by decide +kernel⟩
  have hsaved : titled.Saved (Snapshot.save titled) := saved_save (by decide +kernel)
  have hreached : Reached Counting (titled.after (.reopen (Image.ofDatabase titled))) :=
    htitled.after _ (htitled.ownFiles.wellFormed_of_ownFiles.counting_reopen htitled.counted
      ⟨hsaved, by decide +kernel⟩)
  exact ⟨integral_of_reached hreached, by decide +kernel, by decide +kernel, by decide +kernel⟩

end Concordance.Database
