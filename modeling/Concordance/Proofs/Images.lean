import Concordance.Proofs.Codecs
import Concordance.Snapshot.Image

/-! # Images read back

An image is read back from its bytes when its ids, counters and positions fit words of 32 bits.
-/
namespace Concordance

def ObjectKind.Fits : ObjectKind → Prop
  | .type _ | .table .. => True
  | .column owner _ => Word.Fits owner
  | .index lexicon range flags => Word.Fits lexicon ∧ Word.Fits range ∧ Word.Fits flags.bits

structure TableImage.Fits (t : TableImage) : Prop where
  id : Word.Fits t.id
  next : Word.Fits t.next
  record : ∀ r ∈ t.records, Word.Fits r.1

structure ColumnImage.Fits (c : ColumnImage) : Prop where
  id : Word.Fits c.id
  record : ∀ v ∈ c.values, Word.Fits v.1

structure IndexImage.Fits (i : IndexImage) : Prop where
  id : Word.Fits i.id
  lexicon : Word.Fits i.lexicon
  range : Word.Fits i.range
  flags : Word.Fits i.flags.bits
  source : ∀ s ∈ i.sources, Word.Fits s
  entry : ∀ e ∈ i.postings, Word.Fits e.1 ∧ Word.Fits e.2.1 ∧ Word.Fits e.2.2.1 ∧
    ∀ position ∈ e.2.2.2, Word.Fits position

structure Image.Fits (i : Image) : Prop where
  nextId : Word.Fits i.nextId
  object : ∀ o ∈ i.objects, Word.Fits o.id ∧ o.kind.Fits
  table : ∀ t ∈ i.tables, t.Fits
  column : ∀ c ∈ i.columns, c.Fits
  index : ∀ x ∈ i.indexes, x.Fits

namespace Image
open Codec

theorem lawful_dataType : dataTypeCodec.Lawful fun _ => True :=
  lawful_choice (fun t => by cases t <;> decide) (by decide)

theorem lawful_tableKind : tableKindCodec.Lawful fun _ => True :=
  lawful_choice (fun kind => by cases kind <;> decide) (by decide)

theorem lawful_tokenizer : tokenizerCodec.Lawful fun _ => True :=
  lawful_choice (fun tokenizer => by cases tokenizer <;> decide) (by decide)

theorem lawful_flags : flagsCodec.Lawful fun flags => Word.Fits flags.bits :=
  lawful_id.map fun _ => rfl

theorem lawful_tableContent : tableContent.Lawful fun _ => True := by
  have hkeyType := lawful_dataType.option
  have hparts := lawful_tableKind.pair (hkeyType.pair lawful_tokenizer)
  apply hparts.imp
  intro x _
  exact ⟨trivial, fun _ _ => trivial, trivial⟩

theorem lawful_columnContent : columnContent.Lawful fun x => Word.Fits x.1 := by
  have hparts := lawful_id.pair lawful_dataType
  apply hparts.imp
  intro x hx
  exact ⟨hx, trivial⟩

theorem lawful_indexContent : indexContent.Lawful fun x =>
    Word.Fits x.1 ∧ Word.Fits x.2.1 ∧ Word.Fits x.2.2.bits :=
  lawful_id.pair (lawful_id.pair lawful_flags)

theorem lawful_kind : kindCodec.Lawful ObjectKind.Fits where
  pos kind := by
    cases kind <;> simp only [kindCodec, List.length_append] <;>
      exact Nat.add_pos_left (lawful_id.pos _) _
  read_write {kind} hfits hlen rest := by
    have htag : ∀ n, n < 4 → ∀ more, Codec.id.read (Codec.id.write n ++ more) = .ok (n, more) := by
      intro n hn more
      have hlimit : n < Word.limit 4 := Nat.lt_trans hn (by decide)
      refine lawful_id.read_write hlimit ?_ more
      change (Word.bytes 4 n).length < _
      rw [Word.length_bytes]
      decide
    cases kind with
    | type t =>
      simp only [kindCodec, List.length_append] at hlen ⊢
      rw [List.append_assoc, bind_of_ok (htag 0 (by decide) _)]
      exact bind_of_ok (lawful_dataType.read_write trivial (by omega) rest)
    | table kind keyType tokenizer =>
      simp only [kindCodec, List.length_append] at hlen ⊢
      rw [List.append_assoc, bind_of_ok (htag 1 (by decide) _)]
      exact bind_of_ok (lawful_tableContent.read_write trivial (by omega) rest)
    | column table valueType =>
      simp only [kindCodec, List.length_append] at hlen ⊢
      rw [List.append_assoc, bind_of_ok (htag 2 (by decide) _)]
      exact bind_of_ok
        (lawful_columnContent.read_write (x := (table, valueType)) hfits (by omega) rest)
    | index lexicon range flags =>
      simp only [kindCodec, List.length_append] at hlen ⊢
      rw [List.append_assoc, bind_of_ok (htag 3 (by decide) _)]
      exact bind_of_ok
        (lawful_indexContent.read_write (x := (lexicon, range, flags)) hfits (by omega) rest)

theorem lawful_object : objectCodec.Lawful fun o => Word.Fits o.id ∧ o.kind.Fits := by
  have hname := lawful_text.option
  have hparts := lawful_id.pair (hname.pair lawful_kind)
  have hobject : objectCodec.Lawful _ := hparts.map fun _ => rfl
  apply hobject.imp
  intro o h
  exact ⟨h.1, fun _ _ => trivial, h.2⟩

theorem lawful_table : tableCodec.Lawful TableImage.Fits := by
  have hrecord := lawful_id.pair lawful_text.option
  have hparts := lawful_id.pair (lawful_id.pair hrecord.list)
  have htable : tableCodec.Lawful _ := hparts.map fun _ => rfl
  apply htable.imp
  intro t h
  exact ⟨h.id, h.next, fun r hr => ⟨h.record r hr, fun _ _ => trivial⟩⟩

theorem lawful_column : columnCodec.Lawful ColumnImage.Fits := by
  have hvalue := lawful_id.pair lawful_text
  have hparts := lawful_id.pair hvalue.list
  have hcolumn : columnCodec.Lawful _ := hparts.map fun _ => rfl
  apply hcolumn.imp
  intro c h
  exact ⟨h.id, fun v hv => ⟨h.record v hv, trivial⟩⟩

theorem lawful_entry : entryCodec.Lawful fun e => Word.Fits e.1 ∧ Word.Fits e.2.1 ∧
    Word.Fits e.2.2.1 ∧ ∀ position ∈ e.2.2.2, Word.Fits position :=
  lawful_id.pair (lawful_id.pair (lawful_id.pair lawful_id.list))

theorem lawful_index : indexCodec.Lawful IndexImage.Fits := by
  have hlists := lawful_id.list.pair lawful_entry.list
  have hoptions := lawful_flags.pair (lawful_tokenizer.pair hlists)
  have hparts := lawful_id.pair (lawful_id.pair (lawful_id.pair hoptions))
  have hindex : indexCodec.Lawful _ := hparts.map fun _ => rfl
  apply hindex.imp
  intro i h
  exact ⟨h.id, h.lexicon, h.range, h.flags, trivial, h.source, h.entry⟩

/-- An image is read back from its bytes, whatever follows them. -/
theorem lawful_codec : codec.Lawful Image.Fits := by
  have hstores := lawful_table.list.pair (lawful_column.list.pair lawful_index.list)
  have hparts := lawful_id.pair (lawful_object.list.pair hstores)
  have himage : codec.Lawful _ := hparts.map fun _ => rfl
  apply himage.imp
  intro i h
  exact ⟨h.nextId, h.object, h.table, h.column, h.index⟩

end Image
end Concordance
