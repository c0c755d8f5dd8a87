import Concordance.Proofs.Rewiring

/-! # New objects

A table, a column and an index are entered in the same way: the next id, an entry in the catalog,
empty data in the store of their kind, and perhaps a name that nothing had.
-/
namespace Concordance.Database
variable {db db' : Database} {name : Option String} {kind : ObjectKind} {table : Option Table}
  {column : Option Column} {index : Option Index}

/-- The data that a new object of a kind starts with. -/
inductive Fresh (db : Database) : ObjectKind → Option Table → Option Column → Option Index → Prop
  | table {kind keyType tokenizer}
    (valid : TableConfig.validate ⟨kind, keyType, tokenizer⟩ = .ok ()) :
    Fresh db (.table kind keyType tokenizer) (some (.empty kind)) none none
  | column {table : Nat} {valueType t} (table_eq : db.tables[table]? = some t) :
    Fresh db (.column table valueType) none (some ∅) none
  | index {lexicon range : Nat} {flags tokenizer t}
    (lexicon_eq : db.lexiconTokenizer lexicon = .ok tokenizer)
    (range_eq : db.tables[range]? = some t) :
    Fresh db (.index lexicon range flags) none none
      (some ⟨lexicon, range, flags, tokenizer, [], .empty⟩)

/-- An object has been entered under the next id. -/
structure Entered (db db' : Database) (name : Option String) (kind : ObjectKind)
    (table : Option Table) (column : Option Column) (index : Option Index) : Prop where
  objects : ∀ id : Nat, db'.objects[id]? =
    if id = db.nextId then some ⟨db.nextId, name, kind⟩ else db.objects[id]?
  nextId : db'.nextId = db.nextId + 1
  tables : ∀ id : Nat, db'.tables[id]? = if id = db.nextId then table else db.tables[id]?
  columns : ∀ id : Nat, db'.columns[id]? = if id = db.nextId then column else db.columns[id]?
  indexes : ∀ id : Nat, db'.indexes[id]? = if id = db.nextId then index else db.indexes[id]?
  names : ∀ n : String, db'.names[n]? = if name = some n then some db.nextId else db.names[n]?

/-- The database with an object entered under the next id and the given stores. -/
def enter (db : Database) (name : Option String) (kind : ObjectKind) (tables : ById Table)
    (columns : ById Column) (indexes : ById Index) : Database :=
  ⟨db.objects.insert db.nextId ⟨db.nextId, name, kind⟩, tables, columns, indexes, db.nextId + 1,
    match name with
    | some n => db.names.insert n db.nextId
    | none => db.names⟩

theorem entered_enter (name : Option String) (kind : ObjectKind) {tables : ById Table}
    {columns : ById Column} {indexes : ById Index}
    (ht : ∀ id : Nat, tables[id]? = if id = db.nextId then table else db.tables[id]?)
    (hc : ∀ id : Nat, columns[id]? = if id = db.nextId then column else db.columns[id]?)
    (hi : ∀ id : Nat, indexes[id]? = if id = db.nextId then index else db.indexes[id]?) :
    Entered db (db.enter name kind tables columns indexes) name kind table column index := by
  refine ⟨fun id => FiniteMap.getElem?_insert .., rfl, ht, hc, hi, fun n => ?_⟩
  cases name with
  | none => rfl
  | some m => simp [enter, eq_comm]

theorem Entered.kind? (he : Entered db db' name kind table column index) (id : Nat) :
    db'.kind? id = if id = db.nextId then some kind else db.kind? id := by
  simp only [Database.kind?, he.objects]
  split <;> rfl

theorem Catalogued.lt_of_kind (h : db.Catalogued) {id : Nat} {kind : ObjectKind}
    (hkind : db.kind? id = some kind) : id < db.nextId := by
  obtain ⟨info, hinfo, -⟩ := Option.map_eq_some_iff.1 hkind
  exact h.id_lt hinfo

theorem Catalogued.table_lt (h : db.Catalogued) {id : Nat} {t : Table}
    (ht : db.tables[id]? = some t) : id < db.nextId := by
  obtain ⟨keyType, tokenizer, hkind⟩ := h.table ht
  exact h.lt_of_kind hkind

theorem Catalogued.source_lt (h : db.Catalogued) {range source : Nat}
    (hs : db.checkSource range source = .ok ()) : source < db.nextId := by
  rcases checkSource_eq_ok.1 hs with ⟨valueType, hkind⟩ | ⟨-, kind, keyType, tokenizer, hkind⟩
  · exact h.lt_of_kind hkind
  · exact h.lt_of_kind hkind

/-- Kinds that the catalog gave before are still there. -/
theorem Entered.kind_old (he : Entered db db' name kind table column index) (h : db.Catalogued)
    {id : Nat} {k : ObjectKind} (hk : db.kind? id = some k) : db'.kind? id = some k := by
  rw [he.kind?, if_neg (Nat.ne_of_lt (h.lt_of_kind hk))]
  exact hk

theorem Entered.table_old (he : Entered db db' name kind table column index) (h : db.Catalogued)
    {id : Nat} {t : Table} (ht : db.tables[id]? = some t) : db'.tables[id]? = some t := by
  rw [he.tables, if_neg (Nat.ne_of_lt (h.table_lt ht))]
  exact ht

/-- What an index refers to is there, for old indexes and for a new one. -/
theorem Entered.index_parts (he : Entered db db' name kind table column index) (h : db.Catalogued)
    (hf : Fresh db kind table column index) {id : Nat} {ix : Index}
    (hix : db'.indexes[id]? = some ix) :
    db'.kind? id = some (.index ix.lexicon ix.range ix.flags) ∧
      db'.lexiconTokenizer ix.lexicon = .ok ix.tokenizer ∧
      (∃ t, db'.tables[ix.range]? = some t) ∧
      ∀ s ∈ ix.sources, db'.checkSource ix.range s = .ok () := by
  rw [he.indexes] at hix
  split at hix
  · rename_i heq
    cases hf with
    | index hl hr =>
      cases hix
      have hkind := he.kind? id
      rw [if_pos heq] at hkind
      exact ⟨hkind, lexiconTokenizer_of_kind (he.kind_old h) hl, ⟨_, he.table_old h hr⟩,
        fun s hs => absurd hs List.not_mem_nil⟩
    | _ => cases hix
  · obtain ⟨t, ht⟩ := h.range hix
    exact ⟨he.kind_old h (h.index hix), lexiconTokenizer_of_kind (he.kind_old h) (h.lexicon hix),
      ⟨t, he.table_old h ht⟩, fun s hs => checkSource_of_kind (he.kind_old h) (h.source hix s hs)⟩

theorem Entered.catalogued (he : Entered db db' name kind table column index) (h : db.Catalogued)
    (hf : Fresh db kind table column index) : db'.Catalogued where
  id_eq {id info} hid := by
    rw [he.objects] at hid
    split at hid
    · cases hid
      exact (Eq.symm ‹_›)
    · exact h.id_eq hid
  id_lt {id info} hid := by
    rw [he.objects] at hid
    rw [he.nextId]
    split at hid
    · rename_i heq
      exact heq ▸ Nat.lt_succ_self _
    · exact Nat.lt_succ_of_lt (h.id_lt hid)
  user_le {id info} hid htype := by
    rw [he.objects] at hid
    split at hid
    · rename_i heq
      exact heq ▸ h.next_le
    · exact h.user_le hid htype
  next_le := by
    rw [he.nextId]
    exact Nat.le_succ_of_le h.next_le
  builtIn t := by
    rw [he.objects, if_neg (Nat.ne_of_lt (h.id_lt (h.builtIn t)))]
    exact h.builtIn t
  type_eq {id t} hkind := by
    rw [he.kind?] at hkind
    split at hkind
    · cases hkind
      cases hf
    · exact h.type_eq hkind
  table {id t} ht := by
    rw [he.tables] at ht
    split at ht
    · rename_i heq
      cases hf with
      | table valid =>
        cases ht
        rw [he.kind?, if_pos heq]
        exact ⟨_, _, rfl⟩
      | _ => cases ht
    · obtain ⟨keyType, tokenizer, hkind⟩ := h.table ht
      exact ⟨keyType, tokenizer, he.kind_old h hkind⟩
  tableData {id kind keyType tokenizer} hkind := by
    rw [he.kind?] at hkind
    split at hkind
    · rename_i heq
      cases hkind
      cases hf with
      | table valid => exact ⟨⟨_, by rw [he.tables, if_pos heq]⟩, valid⟩
    · obtain ⟨⟨t, ht⟩, hvalid⟩ := h.tableData hkind
      exact ⟨⟨t, he.table_old h ht⟩, hvalid⟩
  column {id values} hc := by
    rw [he.columns] at hc
    split at hc
    · rename_i heq
      cases hf with
      | column ht =>
        rw [he.kind?, if_pos heq]
        exact ⟨_, _, rfl⟩
      | _ => cases hc
    · obtain ⟨owner, valueType, hkind⟩ := h.column hc
      exact ⟨owner, valueType, he.kind_old h hkind⟩
  columnData {id owner valueType} hkind := by
    rw [he.kind?] at hkind
    split at hkind
    · rename_i heq
      cases hkind
      cases hf with
      | column ht => exact ⟨⟨_, by rw [he.columns, if_pos heq]⟩, _, he.table_old h ht⟩
    · rename_i hne
      obtain ⟨⟨values, hvalues⟩, t, ht⟩ := h.columnData hkind
      exact ⟨⟨values, by rw [he.columns, if_neg hne, hvalues]⟩, t, he.table_old h ht⟩
  index hix := (he.index_parts h hf hix).1
  indexData {id lexicon range flags} hkind := by
    rw [he.kind?] at hkind
    split at hkind
    · rename_i heq
      cases hkind
      cases hf with
      | index hl hr => exact ⟨_, by rw [he.indexes, if_pos heq]⟩
    · rename_i hne
      obtain ⟨ix, hix⟩ := h.indexData hkind
      exact ⟨ix, by rw [he.indexes, if_neg hne, hix]⟩
  lexicon hix := (he.index_parts h hf hix).2.1
  range hix := (he.index_parts h hf hix).2.2.1
  source hix := (he.index_parts h hf hix).2.2.2

theorem Entered.isLive_old (he : Entered db db' name kind table column index) (h : db.Catalogued)
    {id record : Nat} (hr : db.isLive id record) : db'.isLive id record := by
  cases ht : db.tables[id]? with
  | none => simp [isLive, ht] at hr
  | some t =>
    rw [isLive_of_table ht] at hr
    rwa [isLive_of_table (he.table_old h ht)]

theorem Entered.filled (he : Entered db db' name kind table column index) (h : db.WellFormed)
    (hf : Fresh db kind table column index) : db'.Filled where
  sound {id t} ht := by
    rw [he.tables] at ht
    split at ht
    · cases hf with
      | table valid =>
        cases ht
        exact Table.sound_empty _
      | _ => cases ht
    · exact h.filled.sound ht
  value {c record v} hv := by
    obtain ⟨values, hvalues, hget⟩ := value?_eq_some.1 hv
    rw [he.columns] at hvalues
    split at hvalues
    · cases hf with
      | column ht =>
        cases hvalues
        simp at hget
      | _ => cases hvalues
    · obtain ⟨owner, valueType, hkind, hr, hv⟩ :=
        h.filled.value (value?_eq_some.2 ⟨values, hvalues, hget⟩)
      exact ⟨owner, valueType, he.kind_old h.catalogued hkind, he.isLive_old h.catalogued hr, hv⟩

/-- An index is an old one, or new and without postings. -/
theorem Entered.index_cases (he : Entered db db' name kind table column index)
    (hf : Fresh db kind table column index) {i : Nat} {ix : Index}
    (hix : db'.indexes[i]? = some ix) :
    db.indexes[i]? = some ix ∨ i = db.nextId ∧ ix.postings = .empty ∧ ix.sources = [] := by
  rw [he.indexes] at hix
  split at hix
  · rename_i heq
    cases hf with
    | index hl hr =>
      cases hix
      exact .inr ⟨heq, rfl, rfl⟩
    | _ => cases hix
  · exact .inl hix

theorem Entered.posted (he : Entered db db' name kind table column index) (h : db.WellFormed)
    (hf : Fresh db kind table column index) : db'.Posted where
  neat hix := by
    rcases he.index_cases hf hix with hix | ⟨-, hempty, -⟩
    · exact h.posted.neat hix
    · rw [hempty]
      exact Postings.neat_empty
  matched {i ix lexicon} hix hlex := by
    rcases he.index_cases hf hix with hold | ⟨-, hempty, -⟩
    · obtain ⟨t, ht, -⟩ := h.catalogued.lexicon_table hold
      have hlex' := he.table_old h.catalogued ht
      rw [hlex] at hlex'
      cases hlex'
      exact h.posted.matched hold ht
    · obtain ⟨t, ht, hkey⟩ := (he.catalogued h.catalogued hf).lexicon_table hix
      rw [hlex] at ht
      cases ht
      rw [hempty]
      exact .empty ((he.filled h hf).sound hlex) hkey
  live {i ix} hix term record sec position hq := by
    rcases he.index_cases hf hix with hix | ⟨-, hempty, -⟩
    · obtain ⟨hr, hle⟩ := h.posted.live hix hq
      exact ⟨he.isLive_old h.catalogued hr, hle⟩
    · simp [hempty] at hq

theorem Entered.named (he : Entered db db' name kind table column index) (h : db.WellFormed)
    (hname : ∀ n, name = some n → db.names[n]? = none) : db'.Named where
  name_iff {n id} := by
    rw [he.names, he.objects]
    by_cases hn : name = some n
    · rw [if_pos hn]
      by_cases hid : id = db.nextId
      · simp [hid, hn]
      · have hnot : ¬ ∃ info, db.objects[id]? = some info ∧ info.name = some n := by
          rw [← h.named.name_iff, hname n hn]
          simp
        simp only [hid, if_false, Option.some.injEq, hnot, iff_false]
        exact fun heq => hid heq.symm
    · rw [if_neg hn, h.named.name_iff]
      by_cases hid : id = db.nextId
      · have hnot : db.objects[db.nextId]? = none := h.catalogued.no_object (Nat.le_refl _)
        simp [hid, hnot, hn]
      · rw [if_neg hid]

theorem Entered.wellFormed (he : Entered db db' name kind table column index) (h : db.WellFormed)
    (hf : Fresh db kind table column index) (hname : ∀ n, name = some n → db.names[n]? = none) :
    db'.WellFormed :=
  ⟨he.catalogued h.catalogued hf, he.filled h hf, he.posted h hf, he.named h hname⟩

/-- A new object stores nothing and yields nothing. -/
theorem Entered.follows (he : Entered db db' name kind table column index) (h : db.WellFormed)
    (hf : Fresh db kind table column index) : Follows (fun _ _ => True) db db' := by
  have hnew : ∀ {i : Nat} {ix : Index}, db'.indexes[i]? = some ix →
      ix.postings = .empty → ix.sources = [] →
      ∀ t r s q, db'.storedAt i t r s q = 0 ∧ db'.producedAt i t r s q = 0 := by
    intro i ix hix hempty hsources t r s q
    simp only [storedAt, producedAt, yieldAt, hix, hsources]
    refine ⟨?_, rfl⟩
    simp only [stored, hempty]
    split <;> simp
  have htexts : ∀ {i : Nat} {ix : Index}, db.indexes[i]? = some ix → ∀ s ∈ ix.sources, ∀ r,
      db'.textsOf s r = db.textsOf s r := by
    intro i ix hix s hs r
    have hlt := h.catalogued.source_lt (h.catalogued.source hix s hs)
    simp only [textsOf, recordKey?, he.columns, he.tables, if_neg (Nat.ne_of_lt hlt)]
  have hcounts : ∀ i t r s q, db'.storedAt i t r s q = db.storedAt i t r s q ∧
      db'.producedAt i t r s q = db.producedAt i t r s q := by
    intro i t r s q
    cases hix : db.indexes[i]? with
    | none =>
      cases hix' : db'.indexes[i]? with
      | none => simp [storedAt, producedAt, yieldAt, hix, hix']
      | some ix =>
        rcases he.index_cases hf hix' with hold | ⟨-, hempty, hsources⟩
        · rw [hix] at hold
          cases hold
        · obtain ⟨hstored, hproduced⟩ := hnew hix' hempty hsources t r s q
          rw [hstored, hproduced]
          simp [storedAt, producedAt, yieldAt, hix]
    | some ix =>
      have hne : i ≠ db.nextId := Nat.ne_of_lt (h.catalogued.lt_of_kind (h.catalogued.index hix))
      have hix' : db'.indexes[i]? = some ix := by rw [he.indexes, if_neg hne, hix]
      obtain ⟨lexicon, hlex, -⟩ := h.catalogued.lexicon_table hix
      simp only [storedAt, producedAt, yieldAt, hix, hix']
      refine ⟨?_, Index.yield_congr (fun place hp => ?_) t s q⟩
      · rw [stored_eq_tally ix hlex, stored_eq_tally ix (he.table_old h.catalogued hlex)]
      · exact htexts hix place.1 (List.fst_mem_of_mem_zipIdx hp) r
  refine .of_stored (fun i t r s q => (hcounts i t r s q).1) ?_ ?_
  · intro i t r s q
    exact Nat.le_of_eq (hcounts i t r s q).2.symm
  · intro i r _ t s q
    exact (hcounts i t r s q).2.symm

/-- A fresh object has been entered, under a name that nothing had. -/
def Made (db db' : Database) : Prop :=
  ∃ name kind table column index, Entered db db' name kind table column index ∧
    Fresh db kind table column index ∧ ∀ n, name = some n → db.names[n]? = none

theorem Made.wellFormed (hm : db.Made db') (h : db.WellFormed) : db'.WellFormed := by
  obtain ⟨_, _, _, _, _, he, hf, hname⟩ := hm
  exact he.wellFormed h hf hname

theorem Made.follows (hm : db.Made db') (h : db.WellFormed) :
    Follows (fun _ _ => True) db db' := by
  obtain ⟨_, _, _, _, _, he, hf, -⟩ := hm
  exact he.follows h hf

end Concordance.Database
