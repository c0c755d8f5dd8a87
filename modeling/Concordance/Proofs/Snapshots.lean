import Concordance.Json.Shape
import Concordance.Proofs.Images
import Concordance.Proofs.Maintenance
import Concordance.Proofs.Restoring
import Concordance.Proofs.SnapshotFiles

/-! # Snapshots

A database that is saved and loaded again is the same database, in whatever order its parts came to
the file. A file that was damaged since is refused.
-/
namespace Concordance

theorem Json.eq_text_of_toText {v : Json} {s : String} (h : v.toText.toOption = some s) :
    v = .text s := by
  cases v with
  | text s => exact congrArg Json.text (Option.some.inj h)
  | _ => cases h

/-- The parts of an entry are places of the postings. -/
theorem Postings.Neat.of_mem_entries {p : Postings} (h : p.Neat)
    {e : RecordId × RecordId × Nat × List Nat} (he : e ∈ p.entries) :
    e.2.2.2 ≠ [] ∧ ∀ position ∈ e.2.2.2, position ∈ p.positions e.1 e.2.1 e.2.2.1 := by
  obtain ⟨⟨term, list⟩, hlist, he⟩ := List.mem_flatMap.1 he
  obtain ⟨part, hpart, rfl⟩ := List.mem_map.1 he
  obtain ⟨record, sec, ps⟩ := part
  have hlist := Std.ExtTreeMap.mem_toList_iff_getElem?_eq_some.1 hlist
  have hentry := PostingList.mem_toList.1 hpart
  refine ⟨((h.lists hlist).kept hentry).1, fun position hposition => ?_⟩
  simpa [positions, Postings.list, PostingList.positions_eq, hlist, hentry] using hposition

namespace Database
variable {db : Database} {file file' : List UInt8}

/-- The next ids, the flags and the sections fit words of 32 bits, in which a program keeps them. -/
structure Narrow (db : Database) : Prop where
  nextId : Word.Fits db.nextId
  next : ∀ {id : Nat} {t}, db.tables[id]? = some t → Word.Fits t.next
  flags : ∀ {id : Nat} {ix}, db.indexes[id]? = some ix → Word.Fits ix.flags.bits
  sec : ∀ {id : Nat} {ix}, db.indexes[id]? = some ix → ∀ {term record sec position : Nat},
    position ∈ ix.postings.positions term record sec → Word.Fits sec

instance (n : Nat) : Decidable (Word.Fits n) := Nat.decLt n (Word.limit 4)

instance (db : Database) : Decidable db.Narrow :=
  decidable_of_iff (Word.Fits db.nextId ∧ (∀ e ∈ db.tables.toList, Word.Fits e.2.next) ∧
      ∀ e ∈ db.indexes.toList, Word.Fits e.2.flags.bits ∧
        ∀ o ∈ e.2.postings.entries.flatMap Image.occurrences, Word.Fits o.2.2.1) <| by
    have hoccurs : ∀ (p : Postings) (term record sec position : Nat),
        (term, record, sec, position) ∈ p.entries.flatMap Image.occurrences ↔
          position ∈ p.positions term record sec := by
      intro p term record sec position
      rw [← List.count_pos_iff, p.count_entries, List.count_pos_iff]
    constructor
    · rintro ⟨hnext, htables, hindexes⟩
      refine ⟨hnext, fun ht => htables _ (Std.ExtTreeMap.mem_toList_iff_getElem?_eq_some.2 ht),
        fun hix => (hindexes _ (Std.ExtTreeMap.mem_toList_iff_getElem?_eq_some.2 hix)).1,
        fun hix _ _ _ _ hq => ?_⟩
      exact (hindexes _ (Std.ExtTreeMap.mem_toList_iff_getElem?_eq_some.2 hix)).2 _
        ((hoccurs ..).2 hq)
    · intro hn
      refine ⟨hn.nextId, fun e he => hn.next (Std.ExtTreeMap.mem_toList_iff_getElem?_eq_some.1 he),
        fun e he => ?_⟩
      have hix := Std.ExtTreeMap.mem_toList_iff_getElem?_eq_some.1 he
      exact ⟨hn.flags hix, fun o ho => hn.sec hix ((hoccurs ..).1 ho)⟩

namespace Narrow

theorem object (hn : db.Narrow) (h : db.Catalogued) {id : Nat} {kind : ObjectKind}
    (hkind : db.kind? id = some kind) : Word.Fits id :=
  Nat.lt_trans (h.lt_of_kind hkind) hn.nextId

theorem table (hn : db.Narrow) (h : db.Catalogued) {id : Nat} {t : Table}
    (ht : db.tables[id]? = some t) : Word.Fits id :=
  Nat.lt_trans (h.table_lt ht) hn.nextId

theorem record (hn : db.Narrow) (h : db.WellFormed) {table record : Nat}
    (hlive : db.isLive table record) : Word.Fits record := by
  cases ht : db.tables[table]? with
  | none => simp [isLive, ht] at hlive
  | some t =>
    rw [isLive_of_table ht] at hlive
    exact Nat.lt_trans ((h.filled.sound ht).lt_next hlive) (hn.next ht)

theorem kind (hn : db.Narrow) (h : db.Catalogued) {id : Nat} {kind : ObjectKind}
    (hkind : db.kind? id = some kind) : kind.Fits := by
  cases kind with
  | type t => trivial
  | table kind keyType tokenizer => trivial
  | column table valueType =>
    obtain ⟨-, t, ht⟩ := h.columnData hkind
    exact hn.table h ht
  | index lexicon range flags =>
    obtain ⟨ix, hix⟩ := h.indexData hkind
    have hkind' := h.index hix
    rw [hkind] at hkind'
    cases hkind'
    obtain ⟨lexicon, hlexicon, -⟩ := h.lexicon_table hix
    obtain ⟨range, hrange⟩ := h.range hix
    exact ⟨hn.table h hlexicon, hn.table h hrange, hn.flags hix⟩

theorem entry (hn : db.Narrow) (h : db.WellFormed) {id : Nat} {ix : Index}
    (hix : db.indexes[id]? = some ix) {e : RecordId × RecordId × Nat × List Nat}
    (he : e ∈ ix.postings.entries) : Word.Fits e.1 ∧ Word.Fits e.2.1 ∧ Word.Fits e.2.2.1 ∧
      ∀ position ∈ e.2.2.2, Word.Fits position := by
  obtain ⟨hne, hmem⟩ := (h.posted.neat hix).of_mem_entries he
  obtain ⟨position, rest, hps⟩ := List.exists_cons_of_ne_nil hne
  have hposition := hmem position (by rw [hps]; exact List.mem_cons_self ..)
  have hterm : Word.Fits e.1 := by
    obtain ⟨lexicon, hlexicon, -⟩ := h.catalogued.lexicon_table hix
    obtain ⟨key, hkey⟩ := (h.posted.matched hix hlexicon).key hposition
    have hsound := h.filled.sound hlexicon
    have hlt := hsound.lt_next (hsound.live_of_key hkey)
    exact Nat.lt_trans hlt (hn.next hlexicon)
  have hrecord := hn.record h (h.posted.live hix hposition).1
  refine ⟨hterm, hrecord, hn.sec hix hposition, fun q hq => ?_⟩
  have hle := (h.posted.live hix (hmem q hq)).2
  exact Nat.lt_of_le_of_lt hle (by decide)

theorem index (hn : db.Narrow) (h : db.WellFormed) {id : Nat} {ix : Index}
    (hix : db.indexes[id]? = some ix) {i : IndexImage} (hl : i.Lists id ix) : i.Fits := by
  obtain ⟨lexicon, hlexicon, -⟩ := h.catalogued.lexicon_table hix
  obtain ⟨range, hrange⟩ := h.catalogued.range hix
  have hid := hn.object h.catalogued (h.catalogued.index hix)
  have hsource : ∀ s ∈ ix.sources, Word.Fits s := by
    intro s hs
    have hlt := h.catalogued.source_lt (h.catalogued.source hix s hs)
    exact Nat.lt_trans hlt hn.nextId
  obtain ⟨heq, hperm⟩ := hl
  rw [heq]
  exact ⟨hid, hn.table h.catalogued hlexicon, hn.table h.catalogued hrange, hn.flags hix, hsource,
    fun e he => hn.entry h hix (hperm.mem_iff.1 he)⟩

/-- Every number of an image of the database fits its word. -/
theorem fits (hn : db.Narrow) (h : db.WellFormed) {i : Image} (hl : i.Lists db) : i.Fits := by
  have hobject : ∀ o ∈ i.objects, Word.Fits o.id ∧ o.kind.Fits := by
    intro o ho
    rw [hl.objects] at ho
    have hkind := kind?_of_get ((Image.mem_objects h.catalogued).1 ho).1
    exact ⟨hn.object h.catalogued hkind, hn.kind h.catalogued hkind⟩
  have htable : ∀ t ∈ i.tables, t.Fits := by
    intro i hi
    obtain ⟨id, t, ht, rfl⟩ := hl.tables.mem_iff.1 hi
    refine ⟨hn.table h.catalogued ht, hn.next ht, fun r hr => ?_⟩
    obtain ⟨record, hrecord, rfl⟩ := List.mem_map.1 hr
    have hlt := (h.filled.sound ht).lt_next (Std.ExtTreeSet.mem_toList.1 hrecord)
    exact Nat.lt_trans hlt (hn.next ht)
  have hcolumn : ∀ c ∈ i.columns, c.Fits := by
    intro i hi
    obtain ⟨form, hform, hcolumns⟩ := hl.columns
    obtain ⟨id, column, hcolumn, rfl⟩ := hcolumns.mem_iff.1 hi
    obtain ⟨hid, hvalues⟩ := hform (id, column)
    obtain ⟨table, valueType, hkind⟩ := h.catalogued.column hcolumn
    refine ⟨hid ▸ hn.object h.catalogued hkind, fun e he => ?_⟩
    obtain ⟨record, v, hv, rfl⟩ := hvalues.mem_iff.1 he
    have hvalue := value?_eq_some.2 ⟨column, hcolumn, hv⟩
    obtain ⟨table, valueType, -, hlive, -⟩ := h.filled.value hvalue
    exact hn.record h hlive
  have hindex : ∀ x ∈ i.indexes, x.Fits := by
    intro i hi
    obtain ⟨form, hform, hindexes⟩ := hl.indexes
    obtain ⟨id, ix, hix, rfl⟩ := hindexes.mem_iff.1 hi
    exact hn.index h hix (hform (id, ix))
  exact ⟨hl.nextId ▸ hn.nextId, hobject, htable, hcolumn, hindex⟩

end Narrow

/-! ## Saving and loading -/

/-- A file that saving the database may write. Its length fits the field for it. -/
def Saved (db : Database) (file : List UInt8) : Prop :=
  ∃ image : Image, image.Lists db ∧ (Image.codec.write image).length < Word.limit 8 ∧
    file = Snapshot.ofPayload (Image.codec.write image)

theorem saved_save (h : (Image.codec.write (Image.ofDatabase db)).length < Word.limit 8) :
    db.Saved (Snapshot.save db) := ⟨_, Image.lists_ofDatabase db, h, rfl⟩

/-- Loading a file that the database was saved to comes down to restoring an image of it. -/
theorem WellFormed.exists_image (h : db.WellFormed) (hn : db.Narrow) (hsaved : db.Saved file) :
    ∃ image : Image, image.Lists db ∧ Snapshot.load file = image.restore := by
  obtain ⟨image, hl, hlen, rfl⟩ := hsaved
  have hbytes := Image.lawful_codec.read_write (hn.fits h hl) hlen []
  rw [List.append_nil] at hbytes
  have himage : Snapshot.image (Image.codec.write image) = .ok image := by
    rw [Snapshot.image, hbytes]
  refine ⟨image, hl, ?_⟩
  simp only [Snapshot.load, Snapshot.payload_ofPayload hlen, himage, Bind.bind, Except.bind]

theorem WellFormed.load_eq (h : db.WellFormed) (hn : db.Narrow) (hread : db.ReadsBack)
    (hsaved : db.Saved file) : Snapshot.load file = .ok db := by
  obtain ⟨image, hl, hload⟩ := h.exists_image hn hsaved
  exact hload.trans (hl.restore_eq h hread)

/-- Any call, but only a file that the database was saved to is reopened. -/
def Genuine (db : Database) : Call → Prop
  | .reopen image =>
    db.Saved (Snapshot.ofPayload (Image.codec.write image)) ∧ db.Narrow ∧ db.ReadsBack
  | _ => True

theorem genuine_of_indexed {call : Call} (h : call.Indexed) : db.Genuine call := by
  cases call with
  | reopen => exact h.elim
  | _ => trivial

theorem Reached.wellFormed (h : Reached Genuine db) : db.WellFormed := by
  induction h with
  | new => exact wellFormed_new
  | after call _ hcall ih =>
    cases call with
    | reopen image =>
      obtain ⟨hsaved, hn, hread⟩ := hcall
      simp only [Database.after, ih.load_eq hn hread hsaved]
      exact ih
    | _ => exact ih.after trivial

/-- Loading what was saved gives the database back, with all that it holds. -/
theorem load_saved (h : Reached Genuine db) (hn : db.Narrow) (hread : db.ReadsBack)
    (hsaved : db.Saved file) : Snapshot.load file = .ok db :=
  h.wellFormed.load_eq hn hread hsaved

theorem readsBack_notes : notes.ReadsBack := by
  have hstored : ∀ e ∈ notes.columns.toList, ∀ f ∈ e.2.toList,
      f.2.toText.toOption = some "to be" := by decide +kernel
  have hread : (Json.read (Json.text "to be").compact).toOption.bind (·.toText.toOption) =
      some "to be" := by decide +kernel
  intro column record v hv
  obtain ⟨values, hvalues, hrecord⟩ := value?_eq_some.1 hv
  have hv := Json.eq_text_of_toText (hstored _
    (Std.ExtTreeMap.mem_toList_iff_getElem?_eq_some.2 hvalues) _
    (Std.ExtTreeMap.mem_toList_iff_getElem?_eq_some.2 hrecord))
  dsimp only at hv
  rw [hv]
  cases hback : Json.read (Json.text "to be").compact with
  | error fault =>
    rw [hback] at hread
    cases hread
  | ok v' =>
    rw [hback] at hread
    rw [Json.eq_text_of_toText hread]

theorem load_saved_notes : notes.Saved (Snapshot.save notes) ∧
    Snapshot.load (Snapshot.save notes) = .ok notes := by
  have hsaved : notes.Saved (Snapshot.save notes) := saved_save (by decide +kernel)
  have hgenuine : ∀ db call, Maintaining db call → db.Genuine call := by
    rintro db call ⟨hindexed, -⟩
    cases call with
    | reopen image => exact hindexed.elim
    | _ => trivial
  exact ⟨hsaved, load_saved (reached_notes.imp hgenuine) (by decide +kernel) readsBack_notes hsaved⟩

/-- What was saved and then damaged is refused. -/
theorem load_damaged (hsaved : db.Saved file) (hdamaged : Snapshot.Damaged file file') :
    ∃ message, Snapshot.load file' = .error (.snapshot message) := by
  obtain ⟨image, -, hlen, rfl⟩ := hsaved
  exact Snapshot.load_eq_error hlen hdamaged

/-- The file of a new database with its last byte inverted. -/
theorem load_damaged_new : ∃ message, Snapshot.load
    ((Snapshot.save new).dropLast ++ [(Snapshot.save new).getLast (by decide +kernel) ^^^ 0xFF]) =
      .error (.snapshot message) := by
  have hsaved : new.Saved (Snapshot.save new) := saved_save (by decide +kernel)
  have hchanged : Snapshot.Damaged
      ((Snapshot.save new).dropLast ++ [(Snapshot.save new).getLast (by decide +kernel)] ++ [])
      ((Snapshot.save new).dropLast ++
        [(Snapshot.save new).getLast (by decide +kernel) ^^^ 0xFF] ++ []) :=
    .changed rfl (by decide) (by decide +kernel)
  rw [List.append_nil, List.append_nil, List.dropLast_concat_getLast] at hchanged
  exact load_damaged hsaved hchanged

end Database
end Concordance
