import Concordance.Proofs.LivePostings
import Concordance.Proofs.Revisions

/-! # Deleting erases one record

What a deleted record leaves behind is nothing of its own, whichever parts its table plays for the
indexes: it is neither a match, nor a term, nor a value. Everything else is as it was. On the way
values and keys are only retracted, and that touches nothing but postings of the record in indexes
over its table, which go in any case.
-/
namespace Concordance

theorem positions_retract_of_ne {lexicon : Table} {p : Postings} (hn : p.Neat) {record r : Nat}
    (hne : r ≠ record) (sec : Nat) (occurrences : List (String × Nat)) (term s : Nat) :
    (retract lexicon record sec p occurrences).positions term r s = p.positions term r s := by
  induction occurrences generalizing p with
  | nil => rfl
  | cons o rest ih =>
    simp only [retract, List.foldl_cons] at ih ⊢
    cases lexicon.find? o.1 with
    | none => exact ih hn
    | some id =>
      refine (ih (hn.remove id record sec o.2)).trans ?_
      rw [hn.positions_remove, if_neg fun hc => hne hc.2.1]

namespace Database
variable {db db' : Database} {table record column i : Nat} {ix : Index}

/-- Where a term occurs in a section of a record, as an index has it. -/
def positionsAt (db : Database) (i term record sec : Nat) : List Nat :=
  match db.indexes[i]? with
  | some ix => ix.postings.positions term record sec
  | none => []

theorem positionsAt_of_get (hix : db.indexes[i]? = some ix) (term record sec : Nat) :
    db.positionsAt i term record sec = ix.postings.positions term record sec := by
  simp only [positionsAt, hix]

/-- Nothing of a record is left: it is not live and its key is unknown, it has no values, no term
occurs in it, and as a term it has no list. -/
structure Erased (db db' : Database) (table record : Nat) : Prop where
  dead : db'.isLive table record = false
  key : ∀ {key}, db.recordKey? table record = some key → db'.recordId? table key = none
  value : ∀ {column valueType}, db'.kind? column = some (.column table valueType) →
    db'.value? column record = none
  range : ∀ {i : Nat} {ix}, db'.indexes[i]? = some ix → ix.range = table →
    ¬ ix.postings.Mentions record ∧ ∀ term sec, (ix.postings.list term).entryAt record sec = none
  lexicon : ∀ {i : Nat} {ix}, db'.indexes[i]? = some ix → ix.lexicon = table →
    ix.postings.lists[record]? = none

/-- All but one record is as it was: the catalog, other tables, other records and keys, the next
ids, other values, the indexes and their sources, and all postings that are neither of the record
nor for it as a term. -/
structure Spared (db db' : Database) (table record : Nat) : Prop where
  objects : db'.objects = db.objects
  names : db'.names = db.names
  nextId : db'.nextId = db.nextId
  otherTable : ∀ id : Nat, id ≠ table → db'.tables[id]? = db.tables[id]?
  kind : db'.tables[table]?.map Table.kind = db.tables[table]?.map Table.kind
  next : db'.tables[table]?.map Table.next = db.tables[table]?.map Table.next
  otherRecord : ∀ r, r ≠ record → db'.isLive table r = db.isLive table r ∧
    db'.recordKey? table r = db.recordKey? table r
  key : ∀ key, db.recordKey? table record ≠ some key →
    db'.recordId? table key = db.recordId? table key
  value : ∀ column r,
    ¬ (r = record ∧ ∃ valueType, db.kind? column = some (.column table valueType)) →
      db'.value? column r = db.value? column r
  frame : ∀ i : Nat, db'.indexes[i]?.map Index.frame = db.indexes[i]?.map Index.frame
  positions : ∀ {i : Nat} {ix}, db.indexes[i]? = some ix → ∀ term r sec,
    ¬ (ix.range = table ∧ r = record) → ¬ (ix.lexicon = table ∧ term = record) →
      db'.positionsAt i term r sec = db.positionsAt i term r sec

/-! ## Retracting -/

def AllNeat (db : Database) : Prop :=
  ∀ {i : Nat} {ix}, db.indexes[i]? = some ix → ix.postings.Neat

/-- The same database but for values of a record, in columns of its table, and for postings of the
record in indexes over the table. -/
structure Retracted (db db' : Database) (table record : Nat) : Prop where
  objects : db'.objects = db.objects
  names : db'.names = db.names
  nextId : db'.nextId = db.nextId
  tables : db'.tables = db.tables
  value : ∀ column r,
    ¬ (r = record ∧ ∃ valueType, db.kind? column = some (.column table valueType)) →
      db'.value? column r = db.value? column r
  frame : ∀ i : Nat, db'.indexes[i]?.map Index.frame = db.indexes[i]?.map Index.frame
  positions : ∀ {i : Nat} {ix}, db.indexes[i]? = some ix → ∀ term r sec,
    ¬ (ix.range = table ∧ r = record) → db'.positionsAt i term r sec = db.positionsAt i term r sec
  neat : db.AllNeat → db'.AllNeat

theorem Retracted.refl (db : Database) (table record : Nat) : db.Retracted db table record :=
  ⟨rfl, rfl, rfl, rfl, fun _ _ _ => rfl, fun _ => rfl, fun _ _ _ _ _ => rfl, fun h => h⟩

theorem Retracted.kind? (h : db.Retracted db' table record) (id : Nat) :
    db'.kind? id = db.kind? id := by
  rw [Database.kind?, h.objects, Database.kind?]

theorem Retracted.index (h : db.Retracted db' table record) (hix : db.indexes[i]? = some ix) :
    ∃ jx, db'.indexes[i]? = some jx ∧ jx.frame = ix.frame :=
  index_of_frames (fun j => (h.frame j).symm) hix

theorem Retracted.trans {db'' : Database} (h : db.Retracted db' table record)
    (h' : db'.Retracted db'' table record) : db.Retracted db'' table record where
  objects := h'.objects.trans h.objects
  names := h'.names.trans h.names
  nextId := h'.nextId.trans h.nextId
  tables := h'.tables.trans h.tables
  value column r hother := by
    refine (h'.value column r fun hc => hother ?_).trans (h.value column r hother)
    simpa only [h.kind?] using hc
  frame j := (h'.frame j).trans (h.frame j)
  positions hix term r sec hother := by
    obtain ⟨jx, hjx, hframe⟩ := h.index hix
    have hrange := (Index.frame_eq_iff.1 hframe).2.1
    exact (h'.positions hjx term r sec (hrange ▸ hother)).trans (h.positions hix term r sec hother)
  neat hneat := h'.neat (h.neat hneat)

/-- Whatever lists the source is an index over the table. -/
def FeedsOver (db : Database) (source table : Nat) : Prop :=
  ∀ (i : Nat) ix, db.indexes[i]? = some ix → source ∈ ix.sources → ix.range = table

theorem FeedsOver.retracted {source : Nat} (h : db.FeedsOver source table)
    (hr : db.Retracted db' table record) : db'.FeedsOver source table := by
  intro i ix hix hsource
  obtain ⟨jx, hjx, hframe⟩ := index_of_frames hr.frame hix
  obtain ⟨-, hrange, -, -, hsources⟩ := Index.frame_eq_iff.1 hframe
  exact hrange ▸ h i jx hjx (hsources ▸ hsource)

theorem Catalogued.feedsOver_column (h : db.Catalogued) {valueType : DataType}
    (hkind : db.kind? column = some (.column table valueType)) : db.FeedsOver column table := by
  intro i ix hix hsource
  rcases checkSource_eq_ok.1 (h.source hix column hsource) with
    ⟨valueType', heq⟩ | ⟨-, kind, keyType, tokenizer, heq⟩
  · cases hkind.symm.trans heq
    rfl
  · cases hkind.symm.trans heq

theorem Catalogued.feedsOver_table (h : db.Catalogued) {t : Table}
    (ht : db.tables[table]? = some t) : db.FeedsOver table table :=
  fun _ _ hix hsource => (h.eq_of_checkSource ht (h.source hix table hsource)).symm

/-- A delta that only takes texts away brings no term into the lexicon. -/
theorem retracted_applyDelta (hneat : db.AllNeat) (hrange : ∀ ix, db.indexes[i]? = some ix → ix.range = table)
    (record sec : Nat) (old : List String) :
    db.Retracted (db.applyDelta i ⟨record, sec, old, []⟩) table record := by
  cases hix : db.indexes[i]? with
  | none =>
    rw [applyDelta_of_none hix]
    exact .refl db table record
  | some ix =>
    cases hlex : db.tables[ix.lexicon]? with
    | none =>
      rw [applyDelta_of_noLexicon hix hlex]
      exact .refl db table record
    | some lexicon =>
      -- The lexicon is written back as it was read.
      have htables : db.tables.insert ix.lexicon lexicon = db.tables :=
        congrArg Database.tables (withTable_self hlex)
      rw [applyDelta_of_get hix hlex]
      refine ⟨rfl, rfl, rfl, htables, fun _ _ _ => rfl, ?_, ?_, fun _ {j jx} hjx => ?_⟩
      · intro j
        by_cases hj : j = i
        · subst hj
          simp [hix, Index.frame]
        · simp [hj]
      · intro j jx hjx term r s hother
        by_cases hj : j = i
        · subst hj
          obtain rfl := Option.some.inj (hix.symm.trans hjx)
          have hne : r ≠ record := fun hr => hother ⟨hrange ix hix, hr⟩
          simp only [positionsAt, FiniteMap.getElem?_insert, if_true, hix]
          exact positions_retract_of_ne (hneat hix) hne ..
        · simp only [positionsAt, FiniteMap.getElem?_insert, if_neg hj]
      · rw [FiniteMap.getElem?_insert] at hjx
        split at hjx
        · cases hjx
          exact Index.neat_change (hneat hix) lexicon _
        · exact hneat hjx

/-- Texts of the record that a source yields are retracted in indexes over the table only. -/
theorem retracted_feed (hneat : db.AllNeat) {source : Nat} (hover : db.FeedsOver source table)
    (old : List String) :
    db.Retracted (db.feed (db.fedBy source) record old []) table record := by
  have hfed : ∀ place ∈ db.fedBy source, ∀ ix, db.indexes[place.1]? = some ix →
      ix.range = table := by
    intro place hplace ix hix
    obtain ⟨jx, hjx, hsource⟩ := mem_fedBy hplace
    obtain rfl := Option.some.inj (hix.symm.trans hjx)
    exact hover place.1 ix hix hsource
  generalize db.fedBy source = fed at hfed
  induction fed generalizing db with
  | nil => exact .refl db table record
  | cons place rest ih =>
    obtain ⟨hplace, hrest⟩ := List.forall_mem_cons.1 hfed
    have hstep := retracted_applyDelta hneat hplace record place.2 old
    refine hstep.trans (ih (hstep.neat hneat) (hover.retracted hstep) fun place hp ix hix => ?_)
    obtain ⟨jx, hjx, hframe⟩ := index_of_frames hstep.frame hix
    exact (Index.frame_eq_iff.1 hframe).2.1 ▸ hrest place hp jx hjx

theorem retracted_eraseValue {valueType : DataType}
    (hkind : db.kind? column = some (.column table valueType)) (record : Nat) :
    db.Retracted (db.eraseValue column record) table record := by
  cases hvalues : db.columns[column]? with
  | none =>
    simp only [eraseValue, hvalues]
    exact .refl db table record
  | some values =>
    rw [eraseValue_of_get hvalues]
    refine ⟨rfl, rfl, rfl, rfl, fun c r hother => ?_, fun _ => rfl, fun _ _ _ _ _ => rfl,
      fun h => h⟩
    rw [value?_withColumn]
    split
    · rename_i hc
      have hr : r ≠ record := fun hr => hother ⟨hr, valueType, hc ▸ hkind⟩
      rw [FiniteMap.getElem?_erase, if_neg hr, hc, value?, hvalues]
      rfl
    · rfl

/-- Retracting the values of a record from columns of its table. -/
theorem retracted_retractValues (hneat : db.AllNeat) {columns : List ObjectId}
    (hkinds : ∀ c ∈ columns, ∃ valueType, db.kind? c = some (.column table valueType))
    (hover : ∀ c ∈ columns, db.FeedsOver c table)
    (hcall : db.retractValues record columns = (.ok (), db')) :
    db.Retracted db' table record := by
  induction columns generalizing db with
  | nil =>
    cases hcall
    exact .refl _ table record
  | cons column rest ih =>
    obtain ⟨⟨valueType, hkind⟩, hkinds⟩ := List.forall_mem_cons.1 hkinds
    obtain ⟨hcolumn, hover⟩ := List.forall_mem_cons.1 hover
    unfold Database.retractValues at hcall
    cases hv : db.value? column record with
    | none =>
      rw [hv] at hcall
      exact ih hneat hkinds hover hcall
    | some v =>
      cases htexts : v.indexTexts with
      | error e =>
        simp only [hv, htexts] at hcall
        cases hcall
      | ok texts =>
        simp only [hv, htexts] at hcall
        have herased := retracted_eraseValue hkind record
        have hstep := herased.trans
          (retracted_feed (herased.neat hneat) (hcolumn.retracted herased) texts)
        refine hstep.trans
          (ih (hstep.neat hneat) (fun c hc => ?_) (fun c hc => (hover c hc).retracted hstep) hcall)
        rw [hstep.kind?]
        exact hkinds c hc

theorem retracted_retractKey (hneat : db.AllNeat) (hover : db.FeedsOver table table)
    (record : Nat) :
    db.Retracted (db.retractKey table record) table record := by
  unfold Database.retractKey
  split
  · exact retracted_feed hneat hover _
  · exact .refl db table record

/-! ## Forgetting -/

theorem WellFormed.erased_forgetRecord (h : db'.WellFormed) {t : Table}
    (htables : db'.tables = db.tables) (ht : db.tables[table]? = some t)
    (hwf : (db'.forgetRecord table record).WellFormed)
    (hnone : ∀ {c valueType}, db'.kind? c = some (.column table valueType) →
      db'.value? c record = none) : db.Erased (db'.forgetRecord table record) table record := by
  have ht' : db'.tables[table]? = some t := by rw [htables, ht]
  have hsound := h.filled.sound ht'
  refine ⟨?_, fun {key} hkey => ?_, fun hkind => hnone hkind, fun {i ix} hix hrange => ?_,
    fun {i ix} hix hlexicon => ?_⟩
  · rw [Bool.eq_false_iff, Ne, isLive_forgetRecord ht']
    exact fun hlive => hlive.2 ⟨rfl, rfl⟩
  · have hk : t.key? record = some key := by simpa [recordKey?, ht] using hkey
    simp [recordId?, tables_forgetRecord ht', hsound.find?_erase, hk]
  · have hneat := hwf.posted.neat hix
    have hnone (term sec : Nat) : (ix.postings.list term).positions record sec = [] := by
      obtain ⟨jx, hjx, rfl⟩ := index_of_forgetRecord hix
      exact (positions_forgetIn (h.posted.neat hjx) term record sec).trans
        (if_pos (.inl ⟨hrange, rfl⟩))
    refine ⟨?_, fun term sec => ?_⟩
    · rintro ⟨term, hterm⟩
      obtain ⟨sec, hne⟩ := (hneat.list term).mem_records_iff.1 hterm
      exact hne (hnone term sec)
    · rw [(hneat.list term).entryAt_eq, if_pos (hnone term sec)]
  · have hneat := hwf.posted.neat hix
    have hempty (r sec : Nat) :
        ix.postings.positions record r sec = Postings.empty.positions record r sec := by
      obtain ⟨jx, hjx, rfl⟩ := index_of_forgetRecord hix
      rw [positions_forgetIn (h.posted.neat hjx), if_pos (.inr ⟨hlexicon, rfl⟩), Postings.positions_empty]
    rw [hneat.getElem?_lists_congr Postings.neat_empty hempty]
    simp [Postings.empty]

theorem Retracted.spared_forgetRecord (h : db.Retracted db' table record) (hneat : db.AllNeat)
    {t : Table}
    (ht : db.tables[table]? = some t) (hsound : t.Sound) :
    db.Spared (db'.forgetRecord table record) table record := by
  have ht' : db'.tables[table]? = some t := by rw [h.tables, ht]
  have htable := tables_forgetRecord ht' record
  refine ⟨h.objects, h.names, h.nextId, fun id hid => ?_, ?_, ?_, fun r hr => ⟨?_, ?_⟩,
    fun key hkey => ?_, h.value, fun i => ?_, fun {i ix} hix term r sec hrange hlexicon => ?_⟩
  · rw [htable, if_neg hid, h.tables]
  · rw [htable, if_pos rfl, ht, Option.map_some, Option.map_some, Table.kind_erase]
  · rw [htable, if_pos rfl, ht, Option.map_some, Option.map_some, Table.next_erase]
  · rw [Bool.eq_iff_iff, isLive_forgetRecord ht', isLive_of_table ht, isLive_of_table ht']
    exact ⟨fun hlive => hlive.1, fun hlive => ⟨hlive, fun hc => hr hc.2⟩⟩
  · simp [recordKey?, htable, ht, hsound.key?_erase, hr]
  · have hk : t.key? record ≠ some key := by simpa [recordKey?, ht] using hkey
    simp [recordId?, htable, ht, hsound.find?_erase, hk]
  · rw [frame_forgetRecord, h.frame]
  · obtain ⟨jx, hjx, hframe⟩ := h.index hix
    obtain ⟨hlexicon', hrange', -⟩ := Index.frame_eq_iff.1 hframe
    have hforgotten : (db'.forgetRecord table record).indexes[i]? =
        some (forgetIn table record jx) := by
      rw [indexes_forgetRecord, hjx, Option.map_some]
    rw [positionsAt_of_get hforgotten, positions_forgetIn (h.neat hneat hjx), if_neg,
      ← positionsAt_of_get hjx]
    · exact h.positions hix term r sec hrange
    · rw [hlexicon', hrange']
      exact not_or.2 ⟨hrange, hlexicon⟩

/-! ## The whole call -/

theorem WellFormed.deleteRecord_of_isLive (h : db.WellFormed) (hlive : db.isLive table record) :
    (db.deleteRecord table record).1 = .ok () := by
  obtain ⟨t, ht⟩ := table_of_isLive hlive
  obtain ⟨db', hvalues, -⟩ := h.retractValues (fun c hc => mem_columnsOf.1 hc) hlive
  rw [isLive_of_table ht] at hlive
  simp [Database.deleteRecord, Database.table, ht, hlive, hvalues]

/-- In every state that a run reaches, a record can be deleted exactly if it is live. Then nothing
of it is left, whether it was a record or a term of an index and wherever its postings came from,
and everything else is as it was. -/
theorem deleteRecord_erases (h : Reached OwnFiles db) (table record : Nat) :
    ((db.deleteRecord table record).1 = .ok () ↔ db.isLive table record) ∧
      ((db.deleteRecord table record).1 = .ok () →
        db.Erased (db.after (.deleteRecord table record)) table record ∧
          db.Spared (db.after (.deleteRecord table record)) table record) := by
  have hwf := h.wellFormed_of_ownFiles
  have hwf' : (db.after (.deleteRecord table record)).WellFormed := hwf.after trivial
  have hcall {outcome : Except Error Unit} (houtcome : (db.deleteRecord table record).1 = outcome) :
      db.deleteRecord table record = (outcome, db.after (.deleteRecord table record)) :=
    Prod.ext houtcome (hwf.after_deleteRecord ..).symm
  constructor
  · refine ⟨fun hok => ?_, hwf.deleteRecord_of_isLive⟩
    rcases hwf.deleteRecord_cases (hcall hok) with ⟨e, he, -⟩ | ⟨-, _, _, hlive, -⟩
    · cases he
    · exact hlive
  · intro hok
    rcases hwf.deleteRecord_cases (hcall hok) with ⟨e, he, -⟩ |
      ⟨-, t₁, db₁, hlive, hvalues, hwf₁, -, -, ht₁, hr₁, hnone, heq⟩
    · cases he
    · rw [heq] at hwf' ⊢
      obtain ⟨t, ht⟩ := table_of_isLive hlive
      have hvaluesGone : db.Retracted db₁ table record := retracted_retractValues hwf.posted.neat
        (fun c hc => mem_columnsOf.1 hc)
        (fun c hc => (mem_columnsOf.1 hc).elim fun _ => hwf.catalogued.feedsOver_column) hvalues
      have hretracted := hvaluesGone.trans
        (retracted_retractKey hwf₁.posted.neat (hwf₁.catalogued.feedsOver_table ht₁) record)
      obtain ⟨hwf₂, hfed, -⟩ := hwf₁.tracks_retractKey ht₁ hr₁
      refine ⟨hwf₂.erased_forgetRecord hretracted.tables ht hwf' fun {c valueType} hkind => ?_,
        hretracted.spared_forgetRecord hwf.posted.neat ht (hwf.filled.sound ht)⟩
      rw [hfed.same.kind?] at hkind
      simpa only [value?, hfed.columns] using hnone c valueType hkind

/-- Words with glosses, indexed by themselves, one of them also by hand, and the terms of notes. -/
def dictionary : Database :=
  (((((((((((((new.after (.createTable (some "Words") ⟨.hash, some .shortText, .delimit⟩)).after
    (.defineColumn 256 "gloss" .text)).after
    (.defineIndex 256 "glosses" 256 ⟨.none, ["Words"]⟩)).after
    (.setSourceInfo 258 ((Buffer.empty nilId false).setIds [256, 257]))).after
    (.addRecordWithKey 256 "pear")).after
    (.setValue 257 1 (.text "sweet pear"))).after
    (.addRecordWithKey 256 "plum")).after
    (.setValue 257 3 (.text "no pear"))).after
    (.indexUpdate 258 1 3 none (some ((Buffer.empty nilId false).append "sweet plum")))).after
    (.createTable (some "Notes") ⟨.array, none, .whole⟩)).after
    (.defineColumn 259 "body" .text)).after
    (.defineIndex 256 "notes" 259 ⟨.none, ["Notes.body"]⟩)).after
    (.addRecord 259)).after
    (.setValue 260 1 (.text "plum pear"))

/-- The word goes as a record, as a source and as a term of both indexes. The note with its number
keeps the other word. -/
theorem deleteRecord_erases_dictionary : Reached OwnFiles dictionary ∧
    (dictionary.deleteRecord 256 1).1 = .ok () ∧
      dictionary.Erased (dictionary.after (.deleteRecord 256 1)) 256 1 ∧
      dictionary.Spared (dictionary.after (.deleteRecord 256 1)) 256 1 ∧
      dictionary.positionsAt 258 1 3 1 = [0x100001] ∧
      dictionary.positionsAt 258 3 1 1 = [0x200001] ∧
      (dictionary.after (.deleteRecord 256 1)).positionsAt 258 1 3 1 = [] ∧
      (dictionary.after (.deleteRecord 256 1)).positionsAt 258 3 1 1 = [] ∧
      (dictionary.after (.deleteRecord 256 1)).positionsAt 258 4 3 1 = [0x100000] ∧
      (dictionary.after (.deleteRecord 256 1)).positionsAt 261 3 1 1 = [0] := by
  have hreached : Reached OwnFiles dictionary := by
    iterate 14 refine .after _ ?_ trivial
    exact .new
  have hok : (dictionary.deleteRecord 256 1).1 = .ok () :=
    hreached.wellFormed_of_ownFiles.deleteRecord_of_isLive (by decide +kernel)
  obtain ⟨herased, hspared⟩ := (deleteRecord_erases hreached 256 1).2 hok
  exact ⟨hreached, hok, herased, hspared, by decide +kernel⟩

end Database
end Concordance
