import Concordance.Proofs.NewDatabase
import Concordance.Proofs.SourceTexts
import Concordance.Snapshot.Image

/-! # Restoring

An image lists what a database holds, and much of it in no particular order. Entering the entries
one by one makes every table, every posting, every name and so the database again.
-/
namespace Concordance

/-! ## Tables -/

namespace Table
variable {t u : Table}

theorem foldl_insertRecord (records : List (RecordId × Option String)) (t : Table) :
    records.foldl insertRecord t = { t with
      live := records.foldl (fun live r => live.insert r.1) t.live
      idOf := (records.filterMap fun r => r.2.map (r.1, ·)).foldl
        (fun m e => m.insert e.2 e.1) t.idOf
      keyOf := (records.filterMap fun r => r.2.map (r.1, ·)).foldl
        (fun m e => m.insert e.1 e.2) t.keyOf } := by
  induction records generalizing t with
  | nil => rfl
  | cons r rest ih =>
    obtain ⟨id, key⟩ := r
    rw [List.foldl_cons, ih]
    cases key <;> rfl

theorem mem_foldl_insert (records : List (RecordId × Option String)) (live : IdSet) (i : Nat) :
    i ∈ records.foldl (fun live r => live.insert r.1) live ↔
      i ∈ records.map (·.1) ∨ i ∈ live := by
  induction records generalizing live with
  | nil => simp
  | cons r rest ih =>
    rw [List.foldl_cons, ih, Std.ExtTreeSet.mem_insert, Std.LawfulEqCmp.compare_eq_iff_eq,
      List.map_cons, List.mem_cons]
    constructor
    · rintro (h | h | h)
      · exact .inl (.inr h)
      · exact .inl (.inl h.symm)
      · exact .inr h
    · rintro ((h | h) | h)
      · exact .inr (.inl h.symm)
      · exact .inl h
      · exact .inr (.inr h)

theorem filterMap_records (t : Table) :
    t.records.filterMap (fun r => r.2.map (r.1, ·)) = t.keyed := by
  rw [records, keyed, List.filterMap_map]
  rfl

/-- A table is what its records make of an empty one. -/
theorem Sound.restore_records (h : t.Sound) : restore t.kind t.next t.records = t := by
  have hlive : t.records.foldl (fun live r => live.insert r.1) (∅ : IdSet) = t.live := by
    apply Std.ExtTreeSet.ext_mem
    intro i
    have hmap : t.records.map (·.1) = t.live.toList := by
      simp [records, List.map_map, Function.comp_def]
    rw [mem_foldl_insert, hmap, Std.ExtTreeSet.mem_toList]
    simp
  have hkeyOf : t.keyed.foldl (fun m e => m.insert e.1 e.2) (∅ : ById String) = t.keyOf := by
    refine FiniteMap.foldl_insert_eq _ _ _ (fun e he => (mem_keyed h).1 he) (by simp) ?_
    intro id key hkey
    exact .inr (List.mem_map.2 ⟨(id, key), (mem_keyed h).2 hkey, rfl⟩)
  have hidOf : t.keyed.foldl (fun m e => m.insert e.2 e.1) (∅ : ByName RecordId) = t.idOf := by
    refine FiniteMap.foldl_insert_eq _ _ _ (fun e he => h.find?_iff.2 ((mem_keyed h).1 he))
      (by simp) ?_
    intro key id hid
    exact .inr (List.mem_map.2 ⟨(id, key), (mem_keyed h).2 (h.find?_iff.1 hid), rfl⟩)
  rw [restore, foldl_insertRecord, filterMap_records]
  simp only [Table.empty]
  rw [hlive, hkeyOf, hidOf]

end Table

/-! ## Postings -/

namespace Image

/-- The occurrences that an entry stands for. -/
def occurrences (entry : RecordId × RecordId × Nat × List Nat) :
    List (RecordId × RecordId × Nat × Nat) :=
  entry.2.2.2.map fun position => (entry.1, entry.2.1, entry.2.2.1, position)

def addOccurrence (p : Postings) (o : RecordId × RecordId × Nat × Nat) : Postings :=
  p.add o.1 o.2.1 o.2.2.1 o.2.2.2

theorem foldl_restoreEntry (entries : List (RecordId × RecordId × Nat × List Nat)) (p : Postings) :
    entries.foldl restoreEntry p = (entries.flatMap occurrences).foldl addOccurrence p := by
  rw [List.foldl_flatMap]
  congr 1
  funext p entry
  rw [occurrences, List.foldl_map]
  rfl

theorem neat_foldl_addOccurrence {p : Postings} (h : p.Neat)
    (os : List (RecordId × RecordId × Nat × Nat)) : (os.foldl addOccurrence p).Neat := by
  induction os generalizing p with
  | nil => exact h
  | cons o rest ih => exact ih (h.add ..)

theorem count_foldl_addOccurrence (os : List (RecordId × RecordId × Nat × Nat)) (p : Postings)
    (t r s q : Nat) : ((os.foldl addOccurrence p).positions t r s).count q =
      (p.positions t r s).count q + os.count (t, r, s, q) := by
  induction os generalizing p with
  | nil => simp
  | cons o rest ih =>
    obtain ⟨term, record, sec, position⟩ := o
    rw [List.foldl_cons, ih, addOccurrence, Postings.positions_add, List.count_cons]
    by_cases hplace : t = term ∧ r = record ∧ s = sec
    · obtain ⟨rfl, rfl, rfl⟩ := hplace
      rw [if_pos ⟨rfl, rfl, rfl⟩, Positions.count_insert]
      by_cases hq : position = q
      · simp [hq]
        omega
      · simp [hq]
    · have hne : ¬ ((term, record, sec, position) = (t, r, s, q)) := by
        intro heq
        cases heq
        exact hplace ⟨rfl, rfl, rfl⟩
      rw [if_neg hplace, if_neg (by simpa using hne), Nat.add_zero]

end Image

theorem mem_occurrences {entry : RecordId × RecordId × Nat × List Nat} {t r s q : Nat} :
    (t, r, s, q) ∈ Image.occurrences entry ↔
      entry.1 = t ∧ entry.2.1 = r ∧ entry.2.2.1 = s ∧ q ∈ entry.2.2.2 := by
  simp only [Image.occurrences, List.mem_map, Prod.mk.injEq]
  constructor
  · rintro ⟨position, hp, rfl, rfl, rfl, rfl⟩
    exact ⟨rfl, rfl, rfl, hp⟩
  · rintro ⟨rfl, rfl, rfl, hq⟩
    exact ⟨q, hq, rfl, rfl, rfl, rfl⟩

theorem count_occurrences (t r s : Nat) (ps : List Nat) (q : Nat) :
    (Image.occurrences (t, r, s, ps)).count (t, r, s, q) = ps.count q := by
  induction ps with
  | nil => rfl
  | cons p rest ih =>
    simp only [Image.occurrences, List.map_cons] at ih ⊢
    rw [List.count_cons, List.count_cons, ih]
    simp

/-- The entries of a list tell how often each position occurs. -/
theorem PostingList.count_toList (list : PostingList) (t r s q : Nat) :
    ((list.toList.map (t, ·)).flatMap Image.occurrences).count (t, r, s, q) =
      (list.positions r s).count q := by
  have hkey : ∀ e : PostingKey × List Nat,
      (t, r, s, q) ∈ Image.occurrences (t, e.1.record, e.1.sec, e.2) → e.1 = ⟨r, s⟩ := by
    rintro ⟨⟨record, sec⟩, ps⟩ he
    obtain ⟨-, rfl, rfl, -⟩ := mem_occurrences.1 he
    rfl
  rw [toList, List.map_map, List.flatMap_map]
  refine (FiniteMap.count_flatMap_toList list.entries _ hkey).trans ?_
  rw [positions_eq, entryAt]
  cases list.entries[(⟨r, s⟩ : PostingKey)]? with
  | none => rfl
  | some ps => exact count_occurrences t r s ps q

theorem Postings.count_entries (p : Postings) (t r s q : Nat) :
    (p.entries.flatMap Image.occurrences).count (t, r, s, q) = (p.positions t r s).count q := by
  have hterm : ∀ e : Nat × PostingList, (t, r, s, q) ∈
      (e.2.toList.map (e.1, ·)).flatMap Image.occurrences → e.1 = t := by
    intro e he
    obtain ⟨entry, hentry, ho⟩ := List.mem_flatMap.1 he
    obtain ⟨part, -, rfl⟩ := List.mem_map.1 hentry
    exact (mem_occurrences.1 ho).1
  rw [entries, List.flatMap_assoc]
  refine (FiniteMap.count_flatMap_toList p.lists _ hterm).trans ?_
  simp only [positions, list]
  cases p.lists[t]? with
  | none => rfl
  | some l => exact l.count_toList t r s q

/-- Postings are what their entries make, in whatever order they come. -/
theorem Postings.Neat.restore_entries {p : Postings} (h : p.Neat)
    {entries : List (RecordId × RecordId × Nat × List Nat)} (hperm : entries.Perm p.entries) :
    entries.foldl Image.restoreEntry .empty = p := by
  rw [Image.foldl_restoreEntry]
  refine (Image.neat_foldl_addOccurrence neat_empty _).eq_of_count h fun t r s q => ?_
  rw [Image.count_foldl_addOccurrence, positions_empty, List.count_nil, Nat.zero_add,
    (hperm.flatMap_right _).count_eq, count_entries]

/-! ## Databases -/

/-- Every stored value is what its text is read back to. -/
def Database.ReadsBack (db : Database) : Prop :=
  ∀ {column record : Nat} {v}, db.value? column record = some v → Json.read v.compact = .ok v

/-- A column, with its values in any order. -/
structure ColumnImage.Lists (c : ColumnImage) (id : Nat) (column : Column) : Prop where
  id_eq : c.id = id
  values : FiniteMap.Listed column (fun e => (e.1, e.2.compact)) c.values

/-- An index, with its entries in any order. -/
structure IndexImage.Lists (i : IndexImage) (id : Nat) (ix : Index) : Prop where
  eq : i = { Image.ofIndex id ix with postings := i.postings }
  postings : i.postings.Perm ix.postings.entries

namespace Image
variable {db : Database}

/-- An image of a database. What is found by id there comes in any order. -/
structure Lists (i : Image) (db : Database) : Prop where
  nextId : i.nextId = db.nextId
  objects : i.objects = (ofDatabase db).objects
  tables : FiniteMap.Listed db.tables (fun e => ⟨e.1, e.2.next, e.2.records⟩) i.tables
  columns : ∃ form : Nat × Column → ColumnImage, (∀ e, (form e).Lists e.1 e.2) ∧
    FiniteMap.Listed db.columns form i.columns
  indexes : ∃ form : Nat × Index → IndexImage, (∀ e, (form e).Lists e.1 e.2) ∧
    FiniteMap.Listed db.indexes form i.indexes

theorem lists_ofDatabase (db : Database) : (ofDatabase db).Lists db where
  nextId := rfl
  objects := rfl
  tables := FiniteMap.listed_toList ..
  columns := ⟨fun e => ofColumn e.1 e.2, fun _ => ⟨rfl, FiniteMap.listed_toList ..⟩,
    FiniteMap.listed_toList ..⟩
  indexes := ⟨fun e => ofIndex e.1 e.2, fun _ => ⟨rfl, .rfl⟩, FiniteMap.listed_toList ..⟩

theorem mem_objects {info : ObjectInfo} (h : db.Catalogued) :
    info ∈ (ofDatabase db).objects ↔ db.objects[info.id]? = some info ∧ info.isType = false := by
  simp only [ofDatabase, List.mem_filter, List.mem_map, Bool.not_eq_true']
  constructor
  · rintro ⟨⟨⟨id, info⟩, hmem, rfl⟩, htype⟩
    have hget := Std.ExtTreeMap.mem_toList_iff_getElem?_eq_some.1 hmem
    exact ⟨by rwa [h.id_eq hget], htype⟩
  · rintro ⟨hget, htype⟩
    exact ⟨⟨(info.id, info), Std.ExtTreeMap.mem_toList_iff_getElem?_eq_some.2 hget, rfl⟩, htype⟩

theorem foldl_enterObject (infos : List ObjectInfo) (db : Database) :
    infos.foldl enterObject db =
      { db with objects := infos.foldl (fun m info => m.insert info.id info) db.objects } := by
  induction infos generalizing db with
  | nil => rfl
  | cons info rest ih => exact ih _

/-- The types of a catalog are those of a new database. -/
theorem objects_new_of_isType (h : db.Catalogued) {id : Nat} {info : ObjectInfo}
    (hinfo : db.objects[id]? = some info) (htype : info.isType) :
    Database.new.objects[id]? = some info := by
  obtain ⟨t, ht⟩ : ∃ t, info.kind = .type t := by
    simp only [ObjectInfo.isType] at htype
    split at htype
    · exact ⟨_, ‹_›⟩
    · cases htype
  have hkind := Database.kind?_of_get hinfo
  rw [ht] at hkind
  have hid := h.type_eq hkind
  rw [hid, h.builtIn t] at hinfo
  cases hinfo
  exact Database.objects_new.2 ⟨t, hid.symm, rfl⟩

theorem restore_objects (h : db.Catalogued) :
    (ofDatabase db).objects.foldl (fun m info => m.insert info.id info) Database.new.objects =
      db.objects := by
  refine FiniteMap.foldl_insert_eq ObjectInfo.id (fun info => info) _ ?_ ?_ ?_
  · exact fun info hinfo => ((mem_objects h).1 hinfo).1
  · intro id info hinfo
    obtain ⟨t, rfl, rfl⟩ := Database.objects_new.1 hinfo
    exact h.builtIn t
  · intro id info hinfo
    cases htype : info.isType with
    | true => exact .inl (objects_new_of_isType h hinfo htype)
    | false =>
      have hid := h.id_eq hinfo
      rw [← hid] at hinfo
      exact .inr (List.mem_map.2 ⟨info, (mem_objects h).2 ⟨hinfo, htype⟩, hid⟩)

theorem restore_tables (h : db.WellFormed) (base : Database) (hbase : base.objects = db.objects)
    {tables : List TableImage}
    (hl : FiniteMap.Listed db.tables (fun e => ⟨e.1, e.2.next, e.2.records⟩) tables) :
    tables.foldlM restoreTable { base with tables := ∅ } =
      .ok { base with tables := db.tables } := by
  refine hl.foldlM_eq (fun m => { base with tables := m }) restoreTable ?_
  intro id t ht m
  obtain ⟨keyType, tokenizer, hkind⟩ := h.catalogued.table ht
  obtain ⟨info, hinfo, hinfoKind⟩ := Option.map_eq_some_iff.1 hkind
  simp only [restoreTable, Database.object?, hbase, hinfo, hinfoKind,
    (h.filled.sound ht).restore_records]

theorem restore_values (hread : db.ReadsBack) {id : Nat} {column : Column}
    (hcolumn : db.columns[id]? = some column) {values : List (RecordId × String)}
    (hl : FiniteMap.Listed column (fun e => (e.1, e.2.compact)) values) :
    values.foldlM restoreValue (∅ : Column) = .ok column := by
  refine hl.foldlM_eq (fun m => m) restoreValue ?_
  intro record v hv m
  simp only [restoreValue, hread (Database.value?_eq_some.2 ⟨column, hcolumn, hv⟩)]

theorem restore_columns (hread : db.ReadsBack) (base : Database) {columns : List ColumnImage}
    {form : Nat × Column → ColumnImage} (hform : ∀ e, (form e).Lists e.1 e.2)
    (hl : FiniteMap.Listed db.columns form columns) :
    columns.foldlM restoreColumn { base with columns := ∅ } =
      .ok { base with columns := db.columns } := by
  refine hl.foldlM_eq (fun m => { base with columns := m }) restoreColumn ?_
  intro id column hcolumn m
  rw [restoreColumn, restore_values hread hcolumn (hform (id, column)).values,
    (hform (id, column)).id_eq]
  rfl

theorem restore_indexes (h : db.WellFormed) (base : Database) {indexes : List IndexImage}
    {form : Nat × Index → IndexImage} (hform : ∀ e, (form e).Lists e.1 e.2)
    (hl : FiniteMap.Listed db.indexes form indexes) :
    indexes.foldl restoreIndex { base with indexes := ∅ } =
      { base with indexes := db.indexes } := by
  have hpure := hl.foldlM_eq (fun m => { base with indexes := m })
    (fun db i => (pure (restoreIndex db i) : Except Error Database)) ?_
  · rw [List.foldlM_pure] at hpure
    exact Except.ok.inj hpure
  · intro id ix hix m
    obtain ⟨heq, hperm⟩ := hform (id, ix)
    have hpostings := (h.posted.neat hix).restore_entries hperm
    rw [heq]
    simp only [restoreIndex, ofIndex, hpostings]
    rfl

/-- The name that an object claims, with its id. -/
def claim? (info : ObjectInfo) : Option (String × ObjectId) :=
  if info.isType then none else info.name.map (·, info.id)

theorem foldl_enterName (infos : List ObjectInfo) (db : Database) :
    infos.foldl enterName db = { db with
      names := (infos.filterMap claim?).foldl (fun m e => m.insert e.1 e.2) db.names } := by
  induction infos generalizing db with
  | nil => rfl
  | cons info rest ih =>
    rw [List.foldl_cons, ih, List.filterMap_cons]
    simp only [enterName, claim?]
    cases info.name with
    | none => cases info.isType <;> rfl
    | some name => cases info.isType <;> rfl

theorem mem_claims (h : db.Catalogued) {name : String} {id : Nat} :
    (name, id) ∈ (db.objects.toList.map (·.2)).filterMap claim? ↔
      ∃ info, db.objects[id]? = some info ∧ info.isType = false ∧ info.name = some name := by
  simp only [List.mem_filterMap, List.mem_map, claim?]
  constructor
  · rintro ⟨info, ⟨e, he, rfl⟩, hclaim⟩
    have hget := Std.ExtTreeMap.mem_toList_iff_getElem?_eq_some.1 he
    have hid := h.id_eq hget
    cases htype : e.2.isType with
    | true => simp [htype] at hclaim
    | false =>
      simp only [htype, Bool.false_eq_true, if_false, Option.map_eq_some_iff,
        Prod.mk.injEq] at hclaim
      obtain ⟨name', hname, rfl, rfl⟩ := hclaim
      exact ⟨e.2, by rwa [hid], htype, hname⟩
  · rintro ⟨info, hinfo, htype, hname⟩
    refine ⟨info, ⟨(id, info), Std.ExtTreeMap.mem_toList_iff_getElem?_eq_some.2 hinfo, rfl⟩, ?_⟩
    simp [htype, hname, h.id_eq hinfo]

theorem restore_names (h : db.WellFormed) :
    ((db.objects.toList.map (·.2)).filterMap claim?).foldl (fun m e => m.insert e.1 e.2)
      Database.new.names = db.names := by
  refine FiniteMap.foldl_insert_eq _ _ _ ?_ ?_ ?_
  · rintro ⟨name, id⟩ hclaim
    obtain ⟨info, hinfo, -, hname⟩ := (mem_claims h.catalogued).1 hclaim
    exact h.named.name_iff.2 ⟨info, hinfo, hname⟩
  · intro name id hid
    obtain ⟨t, rfl, rfl⟩ := Database.names_new.1 hid
    exact h.named.name_iff.2 ⟨_, h.catalogued.builtIn t, rfl⟩
  · intro name id hid
    obtain ⟨info, hinfo, hname⟩ := h.named.name_iff.1 hid
    cases htype : info.isType with
    | true =>
      obtain ⟨t, rfl, rfl⟩ := Database.objects_new.1
        (objects_new_of_isType h.catalogued hinfo htype)
      exact .inl (Database.names_new.2 ⟨t, Option.some.inj hname, rfl⟩)
    | false =>
      exact .inr (List.mem_map.2
        ⟨(name, id), (mem_claims h.catalogued).2 ⟨info, hinfo, htype, hname⟩, rfl⟩)

/-- An image is restored to the database that it lists. -/
theorem Lists.restore_eq {i : Image} (hl : i.Lists db) (h : db.WellFormed)
    (hread : db.ReadsBack) : i.restore = .ok db := by
  obtain ⟨form, hform, hcolumns⟩ := hl.columns
  obtain ⟨form', hform', hindexes⟩ := hl.indexes
  have hnew : { Database.new with nextId := i.nextId } =
      (⟨Database.new.objects, ∅, ∅, ∅, db.nextId, Database.new.names⟩ : Database) := by
    simp only [hl.nextId, Database.tables_new, Database.columns_new, Database.indexes_new]
  have htables := restore_tables h
    ⟨db.objects, ∅, ∅, ∅, db.nextId, Database.new.names⟩ rfl hl.tables
  have hcolumns := restore_columns hread
    ⟨db.objects, db.tables, ∅, ∅, db.nextId, Database.new.names⟩ hform hcolumns
  have hindexes := restore_indexes h
    ⟨db.objects, db.tables, db.columns, ∅, db.nextId, Database.new.names⟩ hform' hindexes
  rw [restore, hnew, foldl_enterObject, hl.objects, restore_objects h.catalogued]
  refine bind_eq_ok.2 ⟨_, htables, bind_eq_ok.2 ⟨_, hcolumns, ?_⟩⟩
  simp only [hindexes, foldl_enterName, restore_names h]
  rfl

end Image

end Concordance
