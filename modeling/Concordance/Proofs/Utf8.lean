import Concordance.Text.Utf8
import Mathlib.Tactic.SplitIfs

/-! # Reading text back

The bytes of a text are read back to the text: the first byte of a character tells its length, and
no character is taken for a fault. Bytes come in the order of the texts that they spell.
-/
namespace Concordance.Text.Utf8

theorem toNat_ofNat_of_lt {n : Nat} (h : n < 256) : (UInt8.ofNat n).toNat = n := by
  rw [UInt8.toNat_ofNat']
  exact Nat.mod_eq_of_lt h

theorem ofNat_eq_iff {m n : Nat} (hm : m < 256) (hn : n < 256) :
    UInt8.ofNat m = UInt8.ofNat n ↔ m = n := by
  rw [← UInt8.toNat_inj, toNat_ofNat_of_lt hm, toNat_ofNat_of_lt hn]

theorem ofNat_eq_char {c : Char} {n : Nat} (h : n = c.val.toNat) : Char.ofNat n = c := by
  rw [h]
  exact Char.ofNat_toNat c

/-- A byte that continues a character carries six of its bits. -/
theorem isContinuation_ofNat {n : Nat} (h : n < 64) : isContinuation (UInt8.ofNat (n + 0x80)) := by
  simp only [isContinuation, toNat_ofNat_of_lt (show n + 0x80 < 256 by omega), Bool.and_eq_true,
    decide_eq_true_eq]
  omega

theorem head_one {v : Nat} (h : v < 0x80) (more : List UInt8) :
    head (UInt8.ofNat v) more = .ok (Char.ofNat v, 1) := by
  have hfirst := toNat_ofNat_of_lt (show v < 256 by omega)
  simp only [head, hfirst, if_pos h]

theorem head_two {v : Nat} (hle : 0x80 ≤ v) (hlt : v < 0x800) (more : List UInt8) :
    head (UInt8.ofNat (v / 64 % 0x20 + 0xc0)) (UInt8.ofNat (v % 0x40 + 0x80) :: more) =
      .ok (Char.ofNat v, 2) := by
  have hfirst := toNat_ofNat_of_lt (show v / 64 % 0x20 + 0xc0 < 256 by omega)
  have hsecond := toNat_ofNat_of_lt (show v % 0x40 + 0x80 < 256 by omega)
  have hcont := isContinuation_ofNat (show v % 0x40 < 64 by omega)
  have hvalue : (v / 64 % 0x20 + 0xc0) % 32 * 64 + (v % 0x40 + 0x80) % 64 = v := by omega
  simp only [head, hfirst, hcont, hsecond, if_true, hvalue,
    if_neg (show ¬ v / 64 % 0x20 + 0xc0 < 0x80 by omega),
    if_pos (show 0xC2 ≤ v / 64 % 0x20 + 0xc0 ∧ v / 64 % 0x20 + 0xc0 < 0xE0 by omega)]

theorem head_three {v : Nat} (hle : 0x800 ≤ v) (hlt : v < 0x10000)
    (hvalid : v < 0xD800 ∨ 0xDFFF < v) (more : List UInt8) :
    head (UInt8.ofNat (v / 4096 % 0x10 + 0xe0))
      (UInt8.ofNat (v / 64 % 0x40 + 0x80) :: UInt8.ofNat (v % 0x40 + 0x80) :: more) =
      .ok (Char.ofNat v, 3) := by
  have hfirst := toNat_ofNat_of_lt (show v / 4096 % 0x10 + 0xe0 < 256 by omega)
  have hsecond := toNat_ofNat_of_lt (show v / 64 % 0x40 + 0x80 < 256 by omega)
  have hthird := toNat_ofNat_of_lt (show v % 0x40 + 0x80 < 256 by omega)
  have hcont := isContinuation_ofNat (show v % 0x40 < 64 by omega)
  have hlegal : isSecondOfThree (UInt8.ofNat (v / 4096 % 0x10 + 0xe0))
      (UInt8.ofNat (v / 64 % 0x40 + 0x80)) = true := by
    have hE0 : UInt8.ofNat (v / 4096 % 0x10 + 0xe0) = 0xE0 ↔ v / 4096 % 0x10 + 0xe0 = 0xE0 :=
      ofNat_eq_iff (by omega) (by decide)
    have hED : UInt8.ofNat (v / 4096 % 0x10 + 0xe0) = 0xED ↔ v / 4096 % 0x10 + 0xe0 = 0xED :=
      ofNat_eq_iff (by omega) (by decide)
    simp only [isSecondOfThree, hsecond, hE0, hED, Bool.and_eq_true, decide_eq_true_eq]
    split <;> split <;> omega
  have hvalue : (v / 4096 % 0x10 + 0xe0) % 16 * 4096 + (v / 64 % 0x40 + 0x80) % 64 * 64 +
      (v % 0x40 + 0x80) % 64 = v := by omega
  simp only [head, hfirst, hcont, hsecond, hthird, hlegal, hvalue, Bool.not_true,
    Bool.false_eq_true, if_false, if_true,
    if_neg (show ¬ v / 4096 % 0x10 + 0xe0 < 0x80 by omega),
    if_neg (show ¬ (0xC2 ≤ v / 4096 % 0x10 + 0xe0 ∧ v / 4096 % 0x10 + 0xe0 < 0xE0) by omega),
    if_pos (show 0xE0 ≤ v / 4096 % 0x10 + 0xe0 ∧ v / 4096 % 0x10 + 0xe0 < 0xF0 by omega)]

theorem head_four {v : Nat} (hle : 0x10000 ≤ v) (hlt : v < 0x110000) (more : List UInt8) :
    head (UInt8.ofNat (v / 262144 % 0x08 + 0xf0))
      (UInt8.ofNat (v / 4096 % 0x40 + 0x80) :: UInt8.ofNat (v / 64 % 0x40 + 0x80) ::
        UInt8.ofNat (v % 0x40 + 0x80) :: more) = .ok (Char.ofNat v, 4) := by
  have hfirst := toNat_ofNat_of_lt (show v / 262144 % 0x08 + 0xf0 < 256 by omega)
  have hsecond := toNat_ofNat_of_lt (show v / 4096 % 0x40 + 0x80 < 256 by omega)
  have hthird := toNat_ofNat_of_lt (show v / 64 % 0x40 + 0x80 < 256 by omega)
  have hfourth := toNat_ofNat_of_lt (show v % 0x40 + 0x80 < 256 by omega)
  have hcont := isContinuation_ofNat (show v / 64 % 0x40 < 64 by omega)
  have hcont' := isContinuation_ofNat (show v % 0x40 < 64 by omega)
  have hlegal : isSecondOfFour (UInt8.ofNat (v / 262144 % 0x08 + 0xf0))
      (UInt8.ofNat (v / 4096 % 0x40 + 0x80)) = true := by
    have hF0 : UInt8.ofNat (v / 262144 % 0x08 + 0xf0) = 0xF0 ↔
        v / 262144 % 0x08 + 0xf0 = 0xF0 := ofNat_eq_iff (by omega) (by decide)
    have hF4 : UInt8.ofNat (v / 262144 % 0x08 + 0xf0) = 0xF4 ↔
        v / 262144 % 0x08 + 0xf0 = 0xF4 := ofNat_eq_iff (by omega) (by decide)
    simp only [isSecondOfFour, hsecond, hF0, hF4, Bool.and_eq_true, decide_eq_true_eq]
    split <;> split <;> omega
  have hvalue : (v / 262144 % 0x08 + 0xf0) % 8 * 262144 + (v / 4096 % 0x40 + 0x80) % 64 * 4096 +
      (v / 64 % 0x40 + 0x80) % 64 * 64 + (v % 0x40 + 0x80) % 64 = v := by omega
  simp only [head, hfirst, hcont, hcont', hsecond, hthird, hfourth, hlegal, hvalue, Bool.not_true,
    Bool.false_eq_true, if_false, if_true,
    if_neg (show ¬ v / 262144 % 0x08 + 0xf0 < 0x80 by omega),
    if_neg (show ¬ (0xC2 ≤ v / 262144 % 0x08 + 0xf0 ∧ v / 262144 % 0x08 + 0xf0 < 0xE0) by omega),
    if_neg (show ¬ (0xE0 ≤ v / 262144 % 0x08 + 0xf0 ∧ v / 262144 % 0x08 + 0xf0 < 0xF0) by omega),
    if_pos (show 0xF0 ≤ v / 262144 % 0x08 + 0xf0 ∧ v / 262144 % 0x08 + 0xf0 < 0xF5 by omega)]

/-- The bytes of a character are read as the character, whatever follows them. -/
theorem head_encode (c : Char) : ∃ first rest, String.utf8EncodeChar c = first :: rest ∧
    ∀ more, head first (rest ++ more) = .ok (c, rest.length + 1) := by
  have hvalid : c.val.toNat < 0xD800 ∨ 0xDFFF < c.val.toNat ∧ c.val.toNat < 0x110000 := c.valid
  generalize hv : c.val.toNat = v at hvalid
  have hc : Char.ofNat v = c := ofNat_eq_char hv.symm
  simp only [String.utf8EncodeChar, hv]
  split
  · refine ⟨_, _, rfl, fun more => ?_⟩
    rw [← hc]
    exact head_one (by omega) more
  · split
    · refine ⟨_, _, rfl, fun more => ?_⟩
      rw [← hc]
      exact head_two (by omega) (by omega) more
    · split
      · refine ⟨_, _, rfl, fun more => ?_⟩
        rw [← hc]
        exact head_three (by omega) (by omega) (by omega) more
      · refine ⟨_, _, rfl, fun more => ?_⟩
        rw [← hc]
        exact head_four (by omega) (by omega) more

theorem readFrom_skip (position : Nat) (read more : List UInt8) :
    readFrom position read.length (read ++ more) = readFrom (position + read.length) 0 more := by
  induction read generalizing position with
  | nil => rfl
  | cons b rest ih =>
    rw [List.length_cons, List.cons_append, readFrom, ih, Nat.add_assoc, Nat.add_comm 1]

theorem readFrom_utf8 (position : Nat) (text : List Char) :
    readFrom position 0 (utf8 text) = .ok text := by
  induction text generalizing position with
  | nil => rfl
  | cons c rest ih =>
    obtain ⟨first, tail, hencode, hhead⟩ := head_encode c
    rw [utf8, List.flatMap_cons, hencode, List.cons_append, readFrom, hhead]
    dsimp only
    rw [Nat.add_sub_cancel, readFrom_skip, ← utf8, ih]
    rfl

/-! ## The order of bytes -/

theorem ofNat_lt_iff {m n : Nat} (hm : m < 256) (hn : n < 256) :
    UInt8.ofNat m < UInt8.ofNat n ↔ m < n := by
  rw [UInt8.lt_iff_toNat_lt, toNat_ofNat_of_lt hm, toNat_ofNat_of_lt hn]

theorem ofNat_cons_lt {m n : Nat} (hm : m < 256) (hn : n < 256) {x y : List UInt8} :
    UInt8.ofNat m :: x < UInt8.ofNat n :: y ↔ m < n ∨ m = n ∧ x < y := by
  rw [List.cons_lt_cons_iff, ofNat_lt_iff hm hn, ofNat_eq_iff hm hn]

/-- The bytes of a smaller character come first, whatever follows them. -/
theorem encode_append_lt {c d : Char} (h : c < d) (x y : List UInt8) :
    String.utf8EncodeChar c ++ x < String.utf8EncodeChar d ++ y := by
  have hlt : c.val.toNat < d.val.toNat := h
  have hd : d.val.toNat < 0xD800 ∨ 0xDFFF < d.val.toNat ∧ d.val.toNat < 0x110000 := d.valid
  generalize hv : c.val.toNat = v at hlt
  generalize hw : d.val.toNat = w at hlt hd
  have hthree (n : Nat) : n / 4096 = n / 64 / 64 := by omega
  have hfour (n : Nat) : n / 262144 = n / 64 / 64 / 64 := by omega
  simp only [String.utf8EncodeChar, hv, hw]
  -- a smaller character never has more bytes
  split_ifs <;> try omega
  all_goals
    simp (disch := omega) only [List.cons_append, List.nil_append, ofNat_cons_lt, hthree, hfour]
    omega

end Utf8

/-- Texts in the order of their characters are in the order of their bytes. -/
theorem utf8_lt_utf8 {s t : List Char} (h : s < t) : utf8 s < utf8 t := by
  induction s generalizing t with
  | nil =>
    cases t with
    | nil => exact absurd h (List.not_lt_nil _)
    | cons d rest =>
      obtain ⟨first, tail, hencode, -⟩ := Utf8.head_encode d
      rw [utf8, utf8, List.flatMap_cons, hencode]
      exact List.nil_lt_cons _ _
  | cons c s ih =>
    cases t with
    | nil => exact absurd h (List.not_lt_nil _)
    | cons d rest =>
      rw [utf8, utf8, List.flatMap_cons, List.flatMap_cons]
      rcases List.cons_lt_cons_iff.1 h with hcd | ⟨rfl, hst⟩
      · exact Utf8.encode_append_lt hcd _ _
      · exact List.append_left_lt (ih hst)

theorem ofUtf8_utf8 (text : List Char) : ofUtf8 (utf8 text) = .ok text := Utf8.readFrom_utf8 0 text

theorem length_utf8 (s : String) : (utf8 s.toList).length = s.utf8ByteSize := by
  have hbytes : s.toList.utf8Encode = s.toByteArray := String.utf8Encode_toList
  rw [String.utf8ByteSize, ← hbytes, List.utf8Encode, utf8, List.size_toByteArray]

end Concordance.Text
