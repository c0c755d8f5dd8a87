import Concordance.Proofs.Snapshots
import Concordance.Proofs.ValueTexts

/-! # Reopening

What comes of opening a file that a database was saved to. The values are read back from their
texts, and a number may then differ; all else is as it was, and each value is one that its column
takes. So every run that opens only such files keeps the database well-formed.
-/
namespace Concordance
namespace Image
variable {db db' : Database} {id : Nat}

theorem mem_of_restoreValues {values : List (RecordId × String)} {start column : Column}
    (h : values.foldlM restoreValue start = .ok column) {record : Nat} {v : Json}
    (hv : column[record]? = some v) :
    start[record]? = some v ∨ ∃ text, (record, text) ∈ values ∧ Json.read text = .ok v := by
  induction values generalizing start with
  | nil =>
    cases h
    exact .inl hv
  | cons entry rest ih =>
    obtain ⟨r, text⟩ := entry
    rw [List.foldlM_cons] at h
    obtain ⟨next, hnext, hrest⟩ := bind_eq_ok.1 h
    rcases ih hrest with hstart | ⟨text', hmem, hread⟩
    · rw [restoreValue] at hnext
      cases htext : Json.read text with
      | error fault => simp [htext] at hnext
      | ok w =>
        simp only [htext, Except.ok.injEq] at hnext
        rw [← hnext, FiniteMap.getElem?_insert] at hstart
        split at hstart
        · rename_i heq
          cases hstart
          exact .inr ⟨text, heq ▸ List.mem_cons_self .., htext⟩
        · exact .inl hstart
    · exact .inr ⟨text', List.mem_cons_of_mem _ hmem, hread⟩

/-- Columns are restored one by one, each from its own values. -/
theorem columns_of_restoreColumns {columns : List ColumnImage}
    (h : columns.foldlM restoreColumn db = .ok db') :
    db' = { db with columns := db'.columns } ∧ (∀ id : Nat, db'.columns[id]?.isSome ↔
        db.columns[id]?.isSome ∨ ∃ c ∈ columns, c.id = id) ∧
      ∀ {id : Nat} {values}, db'.columns[id]? = some values → db.columns[id]? = some values ∨
        ∃ c ∈ columns, c.id = id ∧ c.values.foldlM restoreValue ∅ = .ok values := by
  induction columns generalizing db with
  | nil =>
    cases h
    exact ⟨rfl, by simp, .inl⟩
  | cons c rest ih =>
    rw [List.foldlM_cons] at h
    obtain ⟨next, hnext, hrest⟩ := bind_eq_ok.1 h
    obtain ⟨column, hcolumn, hput⟩ := bind_eq_ok.1 hnext
    cases hput
    obtain ⟨heq, hsome, hvalues⟩ := ih hrest
    refine ⟨heq, fun id => ?_, fun {id values} hid => ?_⟩
    · rw [hsome, FiniteMap.getElem?_insert]
      by_cases hc : id = c.id
      · simp [hc]
      · simp [hc, Ne.symm hc]
    · rcases hvalues hid with hinsert | ⟨c', hc', heq', hfold⟩
      · rw [FiniteMap.getElem?_insert] at hinsert
        split at hinsert
        · rename_i hc
          cases hinsert
          exact .inr ⟨c, List.mem_cons_self .., hc.symm, hcolumn⟩
        · exact .inl hinsert
      · exact .inr ⟨c', List.mem_cons_of_mem _ hc', heq', hfold⟩

end Image

namespace Database
variable {db db' : Database} {file : List UInt8}

structure Reread (db db' : Database) : Prop where
  rest : db' = { db with columns := db'.columns }
  columns : ∀ id : Nat, db'.columns[id]?.isSome = db.columns[id]?.isSome
  value : ∀ {column record : Nat} {v}, db'.value? column record = some v →
    ∃ w, db.value? column record = some w ∧ Json.read w.compact = .ok v

theorem Reread.same (h : db.Reread db') : db.SameCatalog db' := by
  obtain ⟨hrest, hcolumns, -⟩ := h
  rw [hrest] at hcolumns ⊢
  exact ⟨rfl, rfl, rfl, fun _ => rfl, hcolumns, fun _ => rfl⟩

theorem Reread.wellFormed (hr : db.Reread db') (h : db.WellFormed) : db'.WellFormed := by
  have hsame := hr.same
  have hrest := hr.rest
  have htables : db'.tables = db.tables := by rw [hrest]
  have hindexes : db'.indexes = db.indexes := by rw [hrest]
  have hlive : db'.isLive = db.isLive := by
    funext table record
    simp only [isLive, htables]
  refine ⟨h.catalogued.of_same hsame ?_, ⟨?_, ?_⟩, ⟨?_, ?_, ?_⟩, h.named.of_same hsame⟩
  · intro id ix hix
    exact h.catalogued.source (hindexes ▸ hix)
  · intro id t ht
    exact h.filled.sound (htables ▸ ht)
  · intro column record v hv
    obtain ⟨w, hw, hread⟩ := hr.value hv
    obtain ⟨table, valueType, hkind, hrecord, hindexable⟩ := h.filled.value hw
    exact ⟨table, valueType, by rwa [hsame.kind?], by rwa [hlive], hindexable.of_read hread⟩
  · intro id ix hix
    exact h.posted.neat (hindexes ▸ hix)
  · intro id ix lexicon hix hlexicon
    exact h.posted.matched (hindexes ▸ hix) (htables ▸ hlexicon)
  · intro id ix hix term record sec position hposition
    rw [hlive]
    exact h.posted.live (hindexes ▸ hix) hposition

end Database

namespace Image.Lists
variable {image : Image} {db db' : Database}

theorem restored (hl : image.Lists db) (h : db.WellFormed) (hrestore : image.restore = .ok db') :
    ∃ restored, image.columns.foldlM restoreColumn
        ⟨db.objects, db.tables, ∅, ∅, db.nextId, Database.new.names⟩ = .ok restored ∧
      db' = { db with columns := restored.columns } := by
  obtain ⟨form, hform, hindexes⟩ := hl.indexes
  have hnew : { Database.new with nextId := image.nextId } =
      (⟨Database.new.objects, ∅, ∅, ∅, db.nextId, Database.new.names⟩ : Database) := by
    simp only [hl.nextId, Database.tables_new, Database.columns_new, Database.indexes_new]
  have htables := restore_tables h
    ⟨db.objects, ∅, ∅, ∅, db.nextId, Database.new.names⟩ rfl hl.tables
  rw [restore, hnew, foldl_enterObject, hl.objects, restore_objects h.catalogued] at hrestore
  obtain ⟨_, htables', hrestore⟩ := bind_eq_ok.1 hrestore
  cases htables.symm.trans htables'
  obtain ⟨restored, hcolumns, hrestore⟩ := bind_eq_ok.1 hrestore
  refine ⟨restored, hcolumns, ?_⟩
  have hindexes := restore_indexes h
    ⟨db.objects, db.tables, restored.columns, ∅, db.nextId, Database.new.names⟩ hform hindexes
  rw [(columns_of_restoreColumns hcolumns).1] at hrestore
  simp only [hindexes, foldl_enterName, restore_names h] at hrestore
  exact (Except.ok.inj hrestore).symm

/-- An image lists the columns of the database, each with its values. -/
theorem column (hl : image.Lists db) {c : ColumnImage} (hc : c ∈ image.columns) :
    ∃ column : Column, db.columns[c.id]? = some column ∧ c.Lists c.id column := by
  obtain ⟨form, hform, hlisted⟩ := hl.columns
  obtain ⟨id, column, hcolumn, rfl⟩ := hlisted.mem_iff.1 hc
  have hlists := hform (id, column)
  rw [hlists.id_eq]
  exact ⟨column, hcolumn, hlists⟩

theorem reread (hl : image.Lists db) (h : db.WellFormed) (hrestore : image.restore = .ok db') :
    db.Reread db' := by
  obtain ⟨restored, hcolumns, rfl⟩ := hl.restored h hrestore
  obtain ⟨-, hsome, hvalues⟩ := columns_of_restoreColumns hcolumns
  refine ⟨rfl, fun id => Bool.eq_iff_iff.2 ((hsome id).trans ?_), fun {column record v} hv => ?_⟩
  · constructor
    · rintro (hnone | ⟨c, hc, rfl⟩)
      · simp at hnone
      · obtain ⟨column, hcolumn, -⟩ := hl.column hc
        rw [hcolumn]
        rfl
    · intro hcolumn
      obtain ⟨column, hcolumn⟩ := Option.isSome_iff_exists.1 hcolumn
      obtain ⟨form, hform, hlisted⟩ := hl.columns
      exact .inr ⟨_, hlisted.mem_iff.2 ⟨id, column, hcolumn, rfl⟩, (hform (id, column)).id_eq⟩
  · obtain ⟨values, hvalues', hrecord⟩ := Database.value?_eq_some.1 hv
    rcases hvalues hvalues' with hnone | ⟨c, hc, rfl, hfold⟩
    · simp at hnone
    · obtain ⟨stored, hstored, hlists⟩ := hl.column hc
      rcases mem_of_restoreValues hfold hrecord with hnone | ⟨text, htext, hread⟩
      · simp at hnone
      · obtain ⟨r, w, hw, heq⟩ := hlists.values.mem_iff.1 htext
        cases heq
        exact ⟨w, Database.value?_eq_some.2 ⟨stored, hstored, hw⟩, hread⟩

end Image.Lists

namespace Database
variable {db db' : Database} {file : List UInt8}

/-- What comes of loading a file that the database was saved to. -/
theorem WellFormed.reread_of_load (h : db.WellFormed) (hn : db.Narrow) (hsaved : db.Saved file)
    (hload : Snapshot.load file = .ok db') : db.Reread db' := by
  obtain ⟨image, hl, hrestore⟩ := h.exists_image hn hsaved
  exact hl.reread h (hrestore.symm.trans hload)

/-- Any call, but of files only those that the database was saved to are reopened. -/
def OwnFiles (db : Database) : Call → Prop
  | .reopen image => db.Saved (Snapshot.ofPayload (Image.codec.write image)) ∧ db.Narrow
  | _ => True

/-- Every run that opens only files of the database itself keeps it well-formed. -/
theorem Reached.wellFormed_of_ownFiles (h : Reached OwnFiles db) : db.WellFormed := by
  induction h with
  | new => exact wellFormed_new
  | @after db call _ hcall ih =>
    cases call with
    | reopen image =>
      obtain ⟨hsaved, hn⟩ := hcall
      simp only [Database.after]
      split
      · exact (ih.reread_of_load hn hsaved ‹_›).wellFormed ih
      · exact ih
    | _ => exact ih.after trivial

theorem ownFiles_of_indexed {call : Call} (h : call.Indexed) : db.OwnFiles call := by
  cases call with
  | reopen => exact h.elim
  | _ => trivial

theorem reached_ownFiles_notes : Reached OwnFiles notes :=
  reached_notes.imp fun _ _ ⟨hindexed, _⟩ => ownFiles_of_indexed hindexed

end Database
end Concordance
