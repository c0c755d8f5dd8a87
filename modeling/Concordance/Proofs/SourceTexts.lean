import Concordance.Proofs.Feeding
import Concordance.Proofs.Orders
import Concordance.Proofs.Outcomes

/-! # The texts that feed an index

What each source holds for a record now, and what the sources of an index yield together: how often
a term would stand at a position if the index were built from nothing. In a well-formed database
the texts of a source can always be enumerated, each record once.
-/
namespace Concordance

/-- The texts of a value, if it has any. -/
def Json.texts (v : Json) : List String :=
  match v.indexTexts with
  | .ok texts => texts
  | .error _ => []

theorem Json.Indexable.indexTexts {v : Json} {valueType : DataType} (h : v.Indexable valueType) :
    v.indexTexts = .ok v.texts := by
  obtain ⟨texts, ht⟩ := h.2.2
  rw [Json.texts, ht]

theorem total_append (ms ns : List Nat) : total (ms ++ ns) = total ms + total ns :=
  List.sum_append_nat

theorem total_perm {ms ns : List Nat} (h : ms.Perm ns) : total ms = total ns := h.sum_nat

@[simp] theorem total_cons (n : Nat) (ns : List Nat) : total (n :: ns) = n + total ns := rfl

@[simp] theorem total_nil : total [] = 0 := rfl

theorem Table.mem_keyed {t : Table} (hs : t.Sound) {record : Nat} {key : String} :
    (record, key) ∈ t.keyed ↔ t.key? record = some key := by
  simp only [Table.keyed, List.mem_filterMap, Option.map_eq_some_iff, Prod.mk.injEq]
  constructor
  · rintro ⟨id, -, key', hkey, rfl, rfl⟩
    exact hkey
  · intro hkey
    exact ⟨record, Std.ExtTreeSet.mem_toList.2 (hs.live_of_key hkey), key, hkey, rfl, rfl⟩

theorem Table.nodup_keyed (t : Table) : (t.keyed.map (·.1)).Nodup := by
  have hsub : ∀ ids : List Nat,
      ((ids.filterMap fun id => (t.key? id).map (id, ·)).map (·.1)).Sublist ids := by
    intro ids
    induction ids with
    | nil => exact .slnil
    | cons id rest ih =>
      cases hk : t.key? id with
      | none => simpa [hk] using ih.cons id
      | some key => simpa [hk] using ih
  refine (hsub t.live.toList).nodup ?_
  refine t.live.distinct_toList.imp ?_
  intro a b hne heq
  subst heq
  exact hne Std.ReflCmp.compare_self

namespace Index
variable {ix jx : Index} {texts texts' : Nat → Nat → List String} {places : List (ObjectId × Nat)}

/-- How often sources in their sections yield a term at a position, from the texts that they hold
for a record. -/
def yield (ix : Index) (texts : Nat → Nat → List String) (places : List (ObjectId × Nat))
    (term : String) (record sec position : Nat) : Nat :=
  total (places.map fun place => ix.share place.2 (texts place.1 record) term sec position)

theorem yield_cons (ix : Index) (texts : Nat → Nat → List String) (place : ObjectId × Nat)
    (places : List (ObjectId × Nat)) (t : String) (r s q : Nat) :
    ix.yield texts (place :: places) t r s q =
      ix.share place.2 (texts place.1 r) t s q + ix.yield texts places t r s q := rfl

theorem yield_append (ix : Index) (texts : Nat → Nat → List String)
    (ps qs : List (ObjectId × Nat)) (t : String) (r s q : Nat) :
    ix.yield texts (ps ++ qs) t r s q = ix.yield texts ps t r s q + ix.yield texts qs t r s q := by
  rw [yield, List.map_append, total_append]
  rfl

theorem yield_perm (ix : Index) (texts : Nat → Nat → List String) {ps qs : List (ObjectId × Nat)}
    (h : ps.Perm qs) (t : String) (r s q : Nat) :
    ix.yield texts ps t r s q = ix.yield texts qs t r s q := total_perm (h.map _)

theorem yield_of_frame (h : ix.frame = jx.frame) : ix.yield = jx.yield := by
  funext texts places t r s q
  simp only [yield, share_eq_of_frame h]

theorem yield_congr {r : Nat} (h : ∀ place ∈ places, texts place.1 r = texts' place.1 r)
    (t : String) (s q : Nat) : ix.yield texts places t r s q = ix.yield texts' places t r s q := by
  rw [yield, yield]
  congr 1
  refine List.map_congr_left fun place hmem => ?_
  rw [h place hmem]

/-- More texts yield more. -/
theorem yield_le {r : Nat}
    (h : ∀ place ∈ places, texts place.1 r = [] ∨ texts place.1 r = texts' place.1 r)
    (t : String) (s q : Nat) : ix.yield texts places t r s q ≤ ix.yield texts' places t r s q := by
  induction places with
  | nil => exact Nat.le_refl _
  | cons place rest ih =>
    have hrest := ih fun p hp => h p (List.mem_cons_of_mem _ hp)
    rw [yield_cons, yield_cons]
    refine Nat.add_le_add ?_ hrest
    rcases h place (List.mem_cons_self ..) with hnil | heq
    · rw [hnil, share_nil]
      exact Nat.zero_le _
    · exact Nat.le_of_eq (by rw [heq])

theorem yield_eq_zero {r : Nat} (h : ∀ place ∈ places, texts place.1 r = []) (t : String)
    (s q : Nat) : ix.yield texts places t r s q = 0 := by
  induction places with
  | nil => rfl
  | cons place rest ih =>
    rw [yield_cons, h place (List.mem_cons_self ..), share_nil,
      ih fun p hp => h p (List.mem_cons_of_mem _ hp)]

end Index

namespace Database
variable {db db' : Database}

/-- The texts that a source holds for a record: those of its value, or its key. -/
def textsOf (db : Database) (source record : Nat) : List String :=
  match db.columns[source]? with
  | some values => (values[record]?.map Json.texts).getD []
  | none => ((db.recordKey? source record).map fun key => [key]).getD []

theorem Catalogued.textsOf_table (h : db.Catalogued) {table : Nat} {t : Table}
    (ht : db.tables[table]? = some t) (record : Nat) :
    db.textsOf table record = ((t.key? record).map fun key => [key]).getD [] := by
  simp only [textsOf, h.no_column_of_table ht, recordKey?, ht]
  rfl

/-! ## Enumerating a source -/

/-- The texts of a source by record: each record with texts once, and live where it has to be. -/
structure Enumerates (db : Database) (range source : Nat) (held : List (RecordId × List String)) :
    Prop where
  nodup : (held.map (·.1)).Nodup
  texts : ∀ entry ∈ held, entry.2 = db.textsOf source entry.1
  live : ∀ entry ∈ held, db.isLive range entry.1
  covers : ∀ record, db.textsOf source record ≠ [] → record ∈ held.map (·.1)

/-- The value of a record in a column that the catalog knows. -/
theorem WellFormed.value_of_kind (h : db.WellFormed) {column table record : Nat} {values : Column}
    {valueType : DataType} (hvalues : db.columns[column]? = some values)
    (hkind : db.kind? column = some (.column table valueType)) {v : Json}
    (hv : values[record]? = some v) : db.isLive table record ∧ v.Indexable valueType := by
  have hvalue := value?_eq_some.2 ⟨values, hvalues, hv⟩
  obtain ⟨table', valueType', hkind', hr, hindexable⟩ := h.filled.value hvalue
  rw [hkind] at hkind'
  cases hkind'
  exact ⟨hr, hindexable⟩

theorem WellFormed.sourceTexts_column (h : db.WellFormed) (e : HashOrder) {range source : Nat}
    {valueType : DataType} (hkind : db.kind? source = some (.column range valueType)) :
    ∃ held, e.sourceTexts db source = .ok held ∧ db.Enumerates range source held := by
  obtain ⟨⟨values, hvalues⟩, -⟩ := h.catalogued.columnData hkind
  have hperm := e.values_perm values
  have hmem : ∀ {entry}, entry ∈ e.values values ↔ values[entry.1]? = some entry.2 :=
    hperm.mem_iff.trans Std.ExtTreeMap.mem_toList_iff_getElem?_eq_some
  have hvalue : ∀ entry ∈ e.values values, db.isLive range entry.1 ∧
      entry.2.Indexable valueType := fun entry hentry =>
    h.value_of_kind hvalues hkind (hmem.1 hentry)
  have htexts : ∀ record, db.textsOf source record = (values[record]?.map Json.texts).getD [] := by
    intro record
    simp only [textsOf, hvalues]
  refine ⟨(e.values values).map fun entry => (entry.1, entry.2.texts), ?_, ?_, ?_, ?_, ?_⟩
  · simp only [HashOrder.sourceTexts, hvalues]
    refine mapM_eq_ok fun entry hentry => ?_
    rw [(hvalue entry hentry).2.indexTexts]
    rfl
  · rw [List.map_map]
    exact (hperm.map _).nodup_iff.2 (FiniteMap.nodup_keys values)
  · rintro _ hheld
    obtain ⟨entry, hentry, rfl⟩ := List.mem_map.1 hheld
    simp [htexts, hmem.1 hentry]
  · rintro _ hheld
    obtain ⟨entry, hentry, rfl⟩ := List.mem_map.1 hheld
    exact (hvalue entry hentry).1
  · intro record hne
    rw [htexts] at hne
    cases hget : values[record]? with
    | none => simp [hget] at hne
    | some v =>
      exact List.mem_map.2 ⟨(record, v.texts),
        List.mem_map.2 ⟨(record, v), hmem.2 hget, rfl⟩, rfl⟩

theorem WellFormed.sourceTexts_table (h : db.WellFormed) (e : HashOrder) {range : Nat}
    {kind : TableKind}
    {keyType : Option DataType} {tokenizer : Tokenizer}
    (hkind : db.kind? range = some (.table kind keyType tokenizer)) :
    ∃ held, e.sourceTexts db range = .ok held ∧ db.Enumerates range range held := by
  obtain ⟨⟨t, ht⟩, -⟩ := h.catalogued.tableData hkind
  have hsound := h.filled.sound ht
  have hcolumn := h.catalogued.no_column_of_table ht
  have htexts := h.catalogued.textsOf_table ht
  have hperm := e.keys_perm t
  have hmem : ∀ {entry}, entry ∈ e.keys t ↔ t.key? entry.1 = some entry.2 :=
    hperm.mem_iff.trans (Table.mem_keyed hsound)
  refine ⟨(e.keys t).map fun entry => (entry.1, [entry.2]), ?_, ?_, ?_, ?_, ?_⟩
  · simp only [HashOrder.sourceTexts, hcolumn, ht]
  · rw [List.map_map]
    exact (hperm.map _).nodup_iff.2 (Table.nodup_keyed t)
  · rintro _ hheld
    obtain ⟨entry, hentry, rfl⟩ := List.mem_map.1 hheld
    simp [htexts, hmem.1 hentry]
  · rintro _ hheld
    obtain ⟨entry, hentry, rfl⟩ := List.mem_map.1 hheld
    rw [isLive_of_table ht]
    exact hsound.live_of_key (hmem.1 hentry)
  · intro record hne
    rw [htexts] at hne
    cases hkey : t.key? record with
    | none => simp [hkey] at hne
    | some key =>
      exact List.mem_map.2 ⟨(record, [key]),
        List.mem_map.2 ⟨(record, key), hmem.2 hkey, rfl⟩, rfl⟩

/-- A source of an index can always be read, in any order. -/
theorem WellFormed.sourceTexts (h : db.WellFormed) (e : HashOrder) {range source : Nat}
    (hs : db.checkSource range source = .ok ()) :
    ∃ held, e.sourceTexts db source = .ok held ∧ db.Enumerates range source held := by
  rcases checkSource_eq_ok.1 hs with ⟨valueType, hkind⟩ | ⟨rfl, kind, keyType, tokenizer, hkind⟩
  · exact h.sourceTexts_column e hkind
  · exact h.sourceTexts_table e hkind

end Database
end Concordance
