import Concordance.Buffer
import Concordance.Proofs.Outcomes
import Concordance.Proofs.Utf8

/-! # Buffers give back what they hold

A text written into a buffer is read from it again, and the offsets where the items of a list end
cut the bytes where they were glued together, whichever items are empty. So a buffer that a value
has been written into shows an index the texts of the value.
-/
namespace Concordance

namespace Json

/-- Items that all have texts are read to the end. -/
theorem itemTexts_of_mapM {items : List Json} {texts : List String}
    (h : items.mapM itemText = .ok texts) : itemTexts items = (texts, .ok ()) := by
  induction items generalizing texts with
  | nil =>
    cases h
    rfl
  | cons item rest ih =>
    obtain ⟨text, more, htext, hmore, rfl⟩ := mapM_cons_eq_ok.1 h
    simp only [itemTexts, htext, ih hmore]

/-- Items that are read to the end all have texts. -/
theorem mapM_of_itemTexts {items : List Json} (h : (itemTexts items).2 = .ok ()) :
    ∃ texts, items.mapM itemText = .ok texts := by
  induction items with
  | nil => exact ⟨[], rfl⟩
  | cons item rest ih =>
    cases htext : item.itemText with
    | error e =>
      simp only [itemTexts, htext] at h
      cases h
    | ok text =>
      simp only [itemTexts, htext] at h
      obtain ⟨texts, htexts⟩ := ih h
      exact ⟨text :: texts, mapM_cons_ok htext htexts⟩

end Json

namespace Buffer
variable {b : Buffer}

theorem textOf_utf8 (text : String) : textOf (Text.utf8 text.toList) = .ok text := by
  simp only [textOf, Text.ofUtf8_utf8, String.ofList_toList]

/-- The buffer holds nothing, whatever its type. -/
def IsEmpty (b : Buffer) : Prop := b.bytes = [] ∧ b.ends = []

theorem isEmpty_empty (domain : ObjectId) (shallow : Bool) : (empty domain shallow).IsEmpty :=
  ⟨rfl, rfl⟩

theorem isEmpty_rewind (b : Buffer) : b.rewind.IsEmpty := ⟨rfl, rfl⟩

theorem IsEmpty.text_append (h : b.IsEmpty) (text : String) : (b.append text).text = .ok text := by
  rw [Buffer.text, append, h.1, List.nil_append, textOf_utf8]

/-- No text but the empty one is written without a byte. -/
theorem utf8_eq_nil {text : String} : Text.utf8 text.toList = [] ↔ text.isEmpty := by
  rw [← List.length_eq_zero_iff, Text.length_utf8, String.utf8ByteSize_eq_zero_iff]
  simp

theorem IsEmpty.isVector_append (h : b.IsEmpty) (text : String) :
    (b.append text).isVector = false := by
  simp [isVector, append, h.2]

/-- Bytes without ends of items are a single text. -/
theorem IsEmpty.texts_append (h : b.IsEmpty) (text : String) :
    (b.append text).texts = .ok [text] := by
  rw [texts, h.isVector_append, h.text_append]
  rfl

theorem IsEmpty.indexTexts_append (h : b.IsEmpty) (text : String) :
    (b.append text).indexTexts = .ok (if text.isEmpty then [] else [text]) := by
  have hbytes : (b.append text).bytes.isEmpty = text.isEmpty := by
    rw [Bool.eq_iff_iff, List.isEmpty_iff, ← utf8_eq_nil, append, h.1, List.nil_append]
  simp only [indexTexts, h.isVector_append, hbytes, h.texts_append]
  cases text.isEmpty <;> rfl

theorem IsEmpty.isVector_appendTexts (h : b.IsEmpty) (texts : List String) :
    (b.appendTexts texts).isVector = !texts.isEmpty := by
  cases texts <;> simp [isVector, appendTexts, h.2, endsFrom]

/-- A buffer cuts a list into the texts it was glued from. -/
theorem IsEmpty.texts_appendTexts (h : b.IsEmpty) {texts : List String} (hne : texts ≠ []) :
    (b.appendTexts texts).texts = .ok texts := by
  have hvector : (b.appendTexts texts).isVector = true := by
    rw [h.isVector_appendTexts, List.isEmpty_eq_false_iff.2 hne, Bool.not_false]
  have hcut : cut 0 (b.appendTexts texts).bytes (b.appendTexts texts).ends =
      texts.map fun text => Text.utf8 text.toList := by
    have hglued := cut_endsFrom 0 (texts.map fun text => Text.utf8 text.toList) []
    simpa [appendTexts, h.1, h.2, size] using hglued
  rw [Buffer.texts, hvector, if_pos rfl, hcut, List.mapM_map]
  have hread := mapM_eq_ok (f := textOf ∘ fun text : String => Text.utf8 text.toList) (g := id)
    (l := texts) fun text _ => textOf_utf8 text
  rwa [List.map_id] at hread

theorem IsEmpty.indexTexts_appendTexts (h : b.IsEmpty) (texts : List String) :
    (b.appendTexts texts).indexTexts = .ok texts := by
  cases texts with
  | nil => simp [indexTexts, appendTexts, isVector, h.1, h.2, endsFrom]
  | cons text rest =>
    rw [indexTexts, h.isVector_appendTexts, h.texts_appendTexts (List.cons_ne_nil text rest)]
    simp

/-- A value with texts is written whole, and an index sees its texts in the buffer. -/
theorem IsEmpty.appendValue (h : b.IsEmpty) {v : Json} {texts : List String}
    (htexts : v.indexTexts = .ok texts) :
    (b.appendValue v).1 = .ok () ∧ (b.appendValue v).2.indexTexts = .ok texts := by
  have hscalar {text : String} (htext : v.scalarText? = some text)
      (hvalue : b.appendValue v = (.ok (), b.append text))
      (hseen : v.indexTexts = .ok (if text.isEmpty then [] else [text])) :
      (b.appendValue v).1 = .ok () ∧ (b.appendValue v).2.indexTexts = .ok texts := by
    rw [hvalue, h.indexTexts_append, ← hseen, htexts]
    exact ⟨rfl, rfl⟩
  cases v with
  | array items =>
    have hitems := Json.itemTexts_of_mapM htexts
    simp only [Buffer.appendValue, appendItems, hitems, h.indexTexts_appendTexts, and_self]
  | object fields => cases htexts
  | null => exact hscalar rfl rfl rfl
  | text s => exact hscalar rfl rfl rfl
  | integer n => exact hscalar rfl rfl rfl
  | float x => exact hscalar rfl rfl rfl
  | bool v => exact hscalar rfl rfl rfl

/-- Only values with texts are written whole. -/
theorem indexTexts_of_appendValue {v : Json} (h : (b.appendValue v).1 = .ok ()) :
    ∃ texts, v.indexTexts = .ok texts := by
  cases v with
  | array items => exact Json.mapM_of_itemTexts h
  | object fields => cases h
  | null | text _ | integer _ | float _ | bool _ => exact ⟨_, rfl⟩

/-! ## Packed ids -/

theorem idsOf_append {bytes rest : List UInt8} (h : bytes.length = 4) :
    idsOf (bytes ++ rest) = Word.ofBytes bytes :: idsOf rest := by
  match bytes, h with
  | [_, _, _, _], _ => rfl

theorem idsOf_bytes {ids : List Nat} (h : ∀ id ∈ ids, Word.Fits id) :
    idsOf (ids.flatMap (Word.bytes 4)) = ids := by
  induction ids with
  | nil => rfl
  | cons id rest ih =>
    obtain ⟨hid, hrest⟩ := List.forall_mem_cons.1 h
    rw [List.flatMap_cons, idsOf_append (Word.length_bytes 4 id), Word.ofBytes_bytes 4 id hid,
      ih hrest]

/-- Packed ids are read back, whatever the buffer held before. -/
theorem ids_setIds (b : Buffer) {ids : List Nat} (h : ∀ id ∈ ids, Word.Fits id) :
    (b.setIds ids).ids = .ok ids := by
  have hsize : (b.setIds ids).size % 4 = 0 := by
    simp [size, setIds, setBytes, List.length_flatMap, Word.length_bytes, List.map_const']
  rw [Buffer.ids, if_pos hsize, setIds, setBytes, idsOf_bytes h]

end Buffer
end Concordance
