import Concordance.Proofs.Buffers
import Concordance.Proofs.ValueTexts
import Mathlib.Data.List.Forall2

/-! # Items glued into one buffer

A buffer takes a scalar, or a list of scalars that it glues together, and gives back their text
forms. The offsets where items end keep them apart, even items without a byte, and words of four
bytes hold these offsets as long as such a word can count all the bytes.
-/
namespace Concordance

namespace Json

/-- The text form of a scalar: nothing for null, a text itself, and what is printed for any other. -/
inductive TextForm : Json → String → Prop where
  | null : TextForm null ""
  | text (s : String) : TextForm (text s) s
  | bool (b : Bool) : TextForm (bool b) (bool b).compact
  | integer (n : Int) : TextForm (integer n) (integer n).compact
  | float (x : Binary64) : TextForm (float x) (float x).compact

/-- The texts that a value comes back as: one for each item of a list that has items, a single one
for a scalar, and an empty one for the list without items. -/
inductive ComesBack : Json → List String → Prop where
  | items {items : List Json} {texts : List String} (hne : items ≠ [])
    (hitems : List.Forall₂ TextForm items texts) : ComesBack (array items) texts
  | noItems : ComesBack (array []) [""]
  | scalar {v : Json} {s : String} (hv : TextForm v s) : ComesBack v [s]

variable {v item : Json} {items : List Json} {texts : List String} {s : String}

theorem scalarText?_eq_some : v.scalarText? = some s ↔ TextForm v s := by
  constructor
  · intro h
    cases v <;> cases h
    · exact .null
    · exact .bool _
    · exact .integer _
    · exact .float _
    · exact .text _
  · intro h
    cases h <;> rfl

theorem itemText_eq_ok_iff : item.itemText = .ok s ↔ TextForm item s := by
  rw [← scalarText?_eq_some, itemText]
  cases item.scalarText? <;> simp

theorem exists_textForm : (∃ s, TextForm v s) ↔ v.isScalar := by
  simp only [← itemText_eq_ok_iff, itemText_eq_ok]

theorem mapM_itemText_eq_ok :
    items.mapM itemText = .ok texts ↔ List.Forall₂ TextForm items texts := by
  induction items generalizing texts with
  | nil => simp [pure, Except.pure, eq_comm]
  | cons item rest ih =>
    rw [mapM_cons_eq_ok]
    constructor
    · rintro ⟨s, more, hs, hmore, rfl⟩
      exact .cons (itemText_eq_ok_iff.1 hs) (ih.1 hmore)
    · intro h
      cases h with
      | cons hitem hrest => exact ⟨_, _, itemText_eq_ok_iff.2 hitem, ih.2 hrest, rfl⟩

theorem exists_indexTexts : (∃ texts, v.indexTexts = .ok texts) ↔
    v.isScalar ∨ ∃ items, v = array items ∧ ∀ item ∈ items, item.isScalar := by
  cases v with
  | array items => simp [indexTexts, exists_mapM_itemText, isScalar]
  | null | text _ | integer _ | float _ | bool _ | object _ =>
    simp [indexTexts, scalarText?, isScalar]

end Json

namespace Buffer
variable {b : Buffer} {v : Json}

/-! ## What a buffer takes and gives back -/

theorem IsEmpty.appendValue_eq_ok (h : b.IsEmpty) :
    (b.appendValue v).1 = .ok () ↔ ∃ texts, v.indexTexts = .ok texts :=
  ⟨indexTexts_of_appendValue, fun ⟨_, htexts⟩ => (h.appendValue htexts).1⟩

theorem IsEmpty.texts_of_scalar (h : b.IsEmpty) {s : String} (hv : Json.TextForm v s) :
    (b.appendValue v).2.texts = .ok [s] := by
  have hvalue : (b.appendValue v).2 = b.append s := by cases hv <;> rfl
  rw [hvalue, h.texts_append]

/-- A list without items leaves a buffer as empty as a scalar without a byte does. -/
theorem IsEmpty.texts_of_noItems (h : b.IsEmpty) :
    (b.appendValue (.array [])).2.texts = .ok [""] := by
  have hvalue : (b.appendValue (.array [])).2 = b.append "" := by
    simp [Buffer.appendValue, appendItems, Json.itemTexts, appendTexts, endsFrom, append,
      Text.utf8]
  rw [hvalue, h.texts_append]

theorem IsEmpty.texts_of_items (h : b.IsEmpty) {items : List Json} {texts : List String}
    (hne : items ≠ []) (hitems : List.Forall₂ Json.TextForm items texts) :
    (b.appendValue (.array items)).2.texts = .ok texts := by
  have hread := Json.itemTexts_of_mapM (Json.mapM_itemText_eq_ok.2 hitems)
  have htexts : texts ≠ [] := by
    rintro rfl
    cases hitems
    exact hne rfl
  simp only [Buffer.appendValue, appendItems, hread, h.texts_appendTexts htexts]

/-- What a buffer takes comes back from it. -/
theorem IsEmpty.texts_appendValue (h : b.IsEmpty) (hok : (b.appendValue v).1 = .ok ()) :
    ∃ texts, (b.appendValue v).2.texts = .ok texts ∧ v.ComesBack texts := by
  rcases Json.exists_indexTexts.1 (indexTexts_of_appendValue hok) with hscalar | ⟨items, rfl, hall⟩
  · obtain ⟨s, hs⟩ := Json.exists_textForm.2 hscalar
    exact ⟨_, h.texts_of_scalar hs, .scalar hs⟩
  · by_cases hne : items = []
    · subst hne
      exact ⟨_, h.texts_of_noItems, .noItems⟩
    · obtain ⟨texts, hread⟩ := Json.exists_mapM_itemText.2 hall
      have hitems := Json.mapM_itemText_eq_ok.1 hread
      exact ⟨_, h.texts_of_items hne hitems, .items hne hitems⟩

/-! ## The ends of items -/

/-- Each item ends no earlier than the one before it and within the bytes, so it can be cut out. -/
structure Ordered (b : Buffer) : Prop where
  ascending : b.ends.Pairwise (· ≤ ·)
  within : ∀ stop ∈ b.ends, stop ≤ b.size

theorem IsEmpty.ordered (h : b.IsEmpty) : b.Ordered := by
  constructor <;> simp [h.2]

theorem within_endsFrom {start stop : Nat} {pieces : List (List UInt8)}
    (h : stop ∈ endsFrom start pieces) :
    start ≤ stop ∧ stop ≤ start + pieces.flatten.length := by
  induction pieces generalizing start with
  | nil => cases h
  | cons piece rest ih =>
    rw [List.flatten_cons, List.length_append]
    rcases List.mem_cons.1 h with rfl | h
    · omega
    · have := ih h
      omega

theorem ascending_endsFrom (start : Nat) (pieces : List (List UInt8)) :
    (endsFrom start pieces).Pairwise (· ≤ ·) := by
  induction pieces generalizing start with
  | nil => exact .nil
  | cons piece rest ih => exact .cons (fun _ hstop => (within_endsFrom hstop).1) (ih _)

theorem Ordered.append (h : b.Ordered) (s : String) : (b.append s).Ordered := by
  refine ⟨h.ascending, fun stop hstop => Nat.le_trans (h.within stop hstop) ?_⟩
  simp [size, Buffer.append]

theorem Ordered.appendTexts (h : b.Ordered) (texts : List String) :
    (b.appendTexts texts).Ordered := by
  have hsize : (b.appendTexts texts).size =
      b.size + (texts.map fun text => Text.utf8 text.toList).flatten.length := by
    simp only [size, Buffer.appendTexts, List.length_append]
  constructor
  · refine List.pairwise_append.2 ⟨h.ascending, ascending_endsFrom _ _, ?_⟩
    intro old hold new hnew
    exact Nat.le_trans (h.within old hold) (within_endsFrom hnew).1
  · intro stop hstop
    rw [hsize]
    rcases List.mem_append.1 hstop with hold | hnew
    · exact Nat.le_trans (h.within stop hold) (Nat.le_add_right _ _)
    · exact (within_endsFrom hnew).2

/-- Ends stay in order whatever is written, what is cut off by an error included. -/
theorem Ordered.appendValue (h : b.Ordered) (v : Json) : (b.appendValue v).2.Ordered := by
  cases v with
  | array items => exact h.appendTexts _
  | object fields => exact h
  | null | text _ | integer _ | float _ | bool _ => exact h.append _

/-- The buffer with the ends of its items cut down to words of four bytes. -/
def narrowed (b : Buffer) : Buffer := { b with ends := b.ends.map (· % Word.limit 4) }

/-- Words hold the ends of items in bytes that a word can count. -/
theorem Ordered.narrowed_eq (h : b.Ordered) (hsize : b.size < Word.limit 4) : b.narrowed = b := by
  have hends : b.ends.map (· % Word.limit 4) = b.ends.map id :=
    List.map_congr_left fun stop hstop =>
      Nat.mod_eq_of_lt (Nat.lt_of_le_of_lt (h.within stop hstop) hsize)
  rw [narrowed, hends, List.map_id]

/-- Whatever a buffer held, after rewinding it takes exactly the scalars, null among them, and the
lists of scalars. As long as a word of four bytes can count its bytes, ends of that width are
enough: all items can be cut out at them, and the texts of the buffer are the text forms of what it
was filled with. -/
theorem texts_of_refilled (b : Buffer) (v : Json) :
    ((b.rewind.appendValue v).1 = .ok () ↔
        v.isScalar ∨ ∃ items, v = .array items ∧ ∀ item ∈ items, item.isScalar) ∧
      ((b.rewind.appendValue v).1 = .ok () → (b.rewind.appendValue v).2.size < Word.limit 4 →
        (b.rewind.appendValue v).2.narrowed.Ordered ∧
          ∃ texts, (b.rewind.appendValue v).2.narrowed.texts = .ok texts ∧ v.ComesBack texts) := by
  have hempty := isEmpty_rewind b
  refine ⟨hempty.appendValue_eq_ok.trans Json.exists_indexTexts, fun hok hsize => ?_⟩
  have hordered := hempty.ordered.appendValue v
  rw [hordered.narrowed_eq hsize]
  exact ⟨hordered, hempty.texts_appendValue hok⟩

/-- A buffer with ill-formed bytes takes a list with characters of two bytes and items without a
byte, and gives it back item by item. It refuses a list with a list in it. -/
theorem texts_of_refilled_mixed :
    let b : Buffer := ⟨256, false, [0xFF, 0xFE], [1, 2]⟩
    let v := Json.array [.text "é", .text "", .null, .integer (-7), .text "ß", .bool true]
    let filled := (b.rewind.appendValue v).2
    filled.bytes = [0xC3, 0xA9, 0x2D, 0x37, 0xC3, 0x9F, 0x74, 0x72, 0x75, 0x65] ∧
      filled.narrowed.ends = [2, 2, 2, 4, 6, 10] ∧
      filled.narrowed.texts = .ok ["é", "", "", "-7", "ß", "true"] ∧
      (b.rewind.appendValue (.array [.text "é", .array []])).1 ≠ .ok () := by
  intro b v filled
  have hscalars : ∀ item ∈ [Json.text "é", .text "", .null, .integer (-7), .text "ß", .bool true],
      item.isScalar := by
    simp [Json.isScalar]
  obtain ⟨htaken, hback⟩ := texts_of_refilled b v
  obtain ⟨-, texts, htexts, hback⟩ := hback (htaken.2 (.inr ⟨_, rfl, hscalars⟩)) (by decide +kernel)
  refine ⟨by decide +kernel, by decide +kernel, htexts.trans ?_, fun hok => ?_⟩
  · change Json.ComesBack (.array _) texts at hback
    cases hback with
    | scalar hv => cases hv
    | items _ hitems => exact (Json.mapM_itemText_eq_ok.2 hitems).symm.trans rfl
  · rcases (texts_of_refilled b _).1.1 hok with hscalar | ⟨items, hitems, hall⟩
    · cases hscalar
    · cases hitems
      cases hall (.array []) (by simp)

end Buffer
end Concordance
