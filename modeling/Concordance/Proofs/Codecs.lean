import Concordance.Proofs.Utf8
import Concordance.Snapshot.Codec

/-! # Codecs read what they write

A codec is lawful for the values it reads back from the front of any bytes, as long as their own
bytes can be counted in a word of eight. Pairs, lists and alternatives of lawful codecs are lawful.
-/
namespace Concordance.Codec
variable {α β : Type} {P : α → Prop} {Q : β → Prop}

/-- Every value has bytes, and values with the property are read back. -/
structure Lawful (c : Codec α) (P : α → Prop) : Prop where
  pos : ∀ x, 0 < (c.write x).length
  read_write : ∀ {x}, P x → (c.write x).length < Word.limit 8 →
    ∀ rest, c.read (c.write x ++ rest) = .ok (x, rest)

theorem bind_of_ok {read : Reader α} {f : α → Reader β} {bytes rest : List UInt8} {x : α}
    (h : read bytes = .ok (x, rest)) : (read >>= f) bytes = f x rest := by
  simp only [bind, StateT.bind, h]
  rfl

theorem takeBytes_append (short : Fault) (bytes rest : List UInt8) :
    takeBytes short bytes.length (bytes ++ rest) = .ok (bytes, rest) := by
  simp [takeBytes]

theorem lawful_word (width : Nat) : (word (width + 1)).Lawful (· < Word.limit (width + 1)) where
  pos n := by
    change 0 < (Word.bytes (width + 1) n).length
    rw [Word.length_bytes]
    exact Nat.succ_pos _
  read_write {n} hn _ rest := by
    have htake := takeBytes_append .endOfData (Word.bytes (width + 1) n) rest
    rw [Word.length_bytes] at htake
    refine (bind_of_ok htake).trans ?_
    rw [Word.ofBytes_bytes _ _ hn]
    rfl

theorem lawful_id : id.Lawful (· < Word.limit 4) := lawful_word 3

theorem lawful_count : count.Lawful (· < Word.limit 8) := lawful_word 7

theorem Lawful.imp {c : Codec α} {P' : α → Prop} (h : c.Lawful P) (himp : ∀ x, P' x → P x) :
    c.Lawful P' := ⟨h.pos, fun hx => h.read_write (himp _ hx)⟩

theorem Lawful.pair {a : Codec α} {b : Codec β} (ha : a.Lawful P) (hb : b.Lawful Q) :
    (a.pair b).Lawful fun x => P x.1 ∧ Q x.2 where
  pos x := by
    simp only [Codec.pair, List.length_append]
    exact Nat.add_pos_left (ha.pos x.1) _
  read_write {x} hx hlen rest := by
    simp only [Codec.pair, List.length_append] at hlen ⊢
    rw [List.append_assoc, bind_of_ok (ha.read_write hx.1 (by omega) _),
      bind_of_ok (hb.read_write hx.2 (by omega) _)]
    rfl

theorem Lawful.map {c : Codec α} {inward : α → β} {outward : β → α} (h : c.Lawful P)
    (hinv : ∀ y, inward (outward y) = y) :
    (c.map inward outward).Lawful fun y => P (outward y) where
  pos y := h.pos (outward y)
  read_write {y} hy hlen rest := by
    simp only [Codec.map] at hlen ⊢
    rw [bind_of_ok (h.read_write hy hlen rest), hinv]
    rfl

theorem Lawful.readMany {c : Codec α} (h : c.Lawful P) {xs : List α} (hx : ∀ x ∈ xs, P x)
    (hlen : (xs.flatMap c.write).length < Word.limit 8) (rest : List UInt8) :
    Codec.readMany c.read xs.length (xs.flatMap c.write ++ rest) = .ok (xs, rest) := by
  induction xs with
  | nil => rfl
  | cons x more ih =>
    rw [List.flatMap_cons, List.length_append] at hlen
    rw [List.flatMap_cons, List.append_assoc, List.length_cons, Codec.readMany,
      bind_of_ok (h.read_write (hx x (List.mem_cons_self ..)) (by omega) _),
      bind_of_ok (ih (fun y hy => hx y (List.mem_cons_of_mem _ hy)) (by omega))]
    rfl

/-- A list has no more items than bytes. -/
theorem Lawful.length_le {c : Codec α} (h : c.Lawful P) (xs : List α) :
    xs.length ≤ (xs.flatMap c.write).length := by
  induction xs with
  | nil => exact Nat.le_refl _
  | cons x rest ih =>
    have hpos := h.pos x
    rw [List.flatMap_cons, List.length_append, List.length_cons]
    omega

theorem Lawful.list {c : Codec α} (h : c.Lawful P) : c.list.Lawful fun xs => ∀ x ∈ xs, P x where
  pos xs := by
    simp only [Codec.list, List.length_append]
    exact Nat.add_pos_left (lawful_count.pos _) _
  read_write {xs} hx hlen rest := by
    simp only [Codec.list, List.length_append] at hlen ⊢
    have hle := h.length_le xs
    rw [List.append_assoc,
      bind_of_ok (lawful_count.read_write (show xs.length < Word.limit 8 by omega) (by omega) _)]
    exact h.readMany hx (by omega) rest

theorem Lawful.option {c : Codec α} (h : c.Lawful P) :
    c.option.Lawful fun x => ∀ y, x = some y → P y where
  pos x := by
    cases x <;> simp [Codec.option]
  read_write {x} hx hlen rest := by
    have htag : ∀ tag : UInt8, ∀ more, (word 1).read (tag :: more) = .ok (tag.toNat, more) := by
      intro tag more
      have htake := takeBytes_append .endOfData [tag] more
      refine (bind_of_ok htake).trans ?_
      rfl
    cases x with
    | none => exact (bind_of_ok (htag 0 rest)).trans rfl
    | some y =>
      simp only [Codec.option, List.length_cons] at hlen ⊢
      rw [List.cons_append, bind_of_ok (htag 1 _)]
      refine (bind_of_ok (h.read_write (hx y rfl) (by omega) rest)).trans ?_
      rfl

theorem lawful_text : text.Lawful fun _ => True where
  pos s := by
    simp only [text, List.length_append]
    exact Nat.add_pos_left (lawful_count.pos _) _
  read_write {s} _ hlen rest := by
    simp only [text, List.length_append, Text.length_utf8] at hlen ⊢
    have htake := takeBytes_append .endOfText (Text.utf8 s.toList) rest
    rw [Text.length_utf8] at htake
    rw [List.append_assoc,
      bind_of_ok (lawful_count.read_write (show s.utf8ByteSize < Word.limit 8 by omega)
        (by omega) _), bind_of_ok htake, Text.ofUtf8_utf8]
    simp only [String.ofList_toList]
    rfl

theorem lawful_choice [DecidableEq α] {all : List α} (hall : ∀ x, x ∈ all)
    (hcount : all.length ≤ Word.limit 4) : (choice all).Lawful fun _ => True where
  pos x := lawful_id.pos _
  read_write {x} _ hlen rest := by
    have hidx : all.idxOf x < all.length := List.idxOf_lt_length_of_mem (hall x)
    simp only [choice] at hlen ⊢
    rw [bind_of_ok (lawful_id.read_write (Nat.lt_of_lt_of_le hidx hcount) hlen rest)]
    have hget : all[all.idxOf x]? = some x := by
      rw [List.getElem?_eq_getElem hidx, List.getElem_idxOf hidx]
    rw [hget]
    rfl

end Concordance.Codec
