import Concordance.Snapshot.Checksum
import Concordance.Word
import Mathlib.Algebra.Group.Nat.Defs

/-! # What the checksum tells apart

The check register is linear over exclusive or and loses nothing as it shifts. What four bytes do to
it is therefore told by the bytes, so messages that differ only within four bytes that follow one
another have different checksums.
-/
namespace Concordance

namespace Word

theorem ofBytes_lt (bytes : List UInt8) : ofBytes bytes < limit bytes.length := by
  induction bytes with
  | nil => exact Nat.zero_lt_one
  | cons b rest ih =>
    have hb := b.toNat_lt
    simp only [ofBytes, List.length_cons, limit]
    omega

theorem limit_eq (width : Nat) : limit width = 2 ^ (8 * width) := by
  induction width with
  | zero => rfl
  | succ width ih => rw [limit, ih, Nat.mul_succ, Nat.pow_add, Nat.mul_comm]

/-- Words of one width are told by their numbers. -/
theorem ofBytes_inj {xs ys : List UInt8} (hlen : xs.length = ys.length)
    (h : ofBytes xs = ofBytes ys) : xs = ys := by
  induction xs generalizing ys with
  | nil => exact (List.length_eq_zero_iff.1 hlen.symm).symm
  | cons x rest ih =>
    cases ys with
    | nil => cases hlen
    | cons y rest' =>
      have hx := x.toNat_lt
      have hy := y.toNat_lt
      simp only [ofBytes] at h
      rw [ih (Nat.succ.inj hlen) (by omega), UInt8.toNat_inj.1 (show x.toNat = y.toNat by omega)]

end Word

namespace Checksum

theorem toNat_shiftBit (r : UInt32) : (shiftBit r).toNat =
    if r.toNat % 2 = 1 then r.toNat / 2 ^^^ 0xEDB88320 else r.toNat / 2 := by
  have hbit : r &&& 1 = 1 ↔ r.toNat % 2 = 1 := by
    rw [← UInt32.toNat_inj, UInt32.toNat_and, ← Nat.and_two_pow_sub_one_eq_mod r.toNat 1]
    rfl
  unfold shiftBit
  simp only [hbit]
  split <;> simp [Nat.shiftRight_eq_div_pow]

theorem shiftBit_xor (r s : UInt32) : shiftBit (r ^^^ s) = shiftBit r ^^^ shiftBit s := by
  rw [← UInt32.toNat_inj]
  have hdiv := Nat.xor_div_two_pow (a := r.toNat) (b := s.toNat) (n := 1)
  have hmod := Nat.xor_mod_two_pow (a := r.toNat) (b := s.toNat) (n := 1)
  simp only [Nat.pow_one] at hdiv hmod
  simp only [UInt32.toNat_xor, toNat_shiftBit, hdiv, hmod]
  rcases Nat.mod_two_eq_zero_or_one r.toNat with hr | hr <;>
    rcases Nat.mod_two_eq_zero_or_one s.toNat with hs | hs <;> simp only [hr, hs]
  · rfl
  · exact Nat.xor_assoc ..
  · simp [Nat.xor_assoc, Nat.xor_comm]
  · -- the polynomial enters twice and cancels
    change r.toNat / 2 ^^^ s.toNat / 2 =
      (r.toNat / 2 ^^^ 0xEDB88320) ^^^ (s.toNat / 2 ^^^ 0xEDB88320)
    rw [Nat.xor_comm (s.toNat / 2) 0xEDB88320, Nat.xor_assoc, ← Nat.xor_assoc 0xEDB88320,
      Nat.xor_self, Nat.zero_xor]

theorem shiftBits_xor (n : Nat) (r s : UInt32) :
    shiftBits n (r ^^^ s) = shiftBits n r ^^^ shiftBits n s := by
  induction n generalizing r s with
  | zero => rfl
  | succ n ih => rw [shiftBits, shiftBits, shiftBits, shiftBit_xor, ih]

/-- A bit that is shifted out leaves the top bit set, so a register whose top bit is clear came from
its double. -/
theorem toNat_of_shiftBit_lt {r : UInt32} (h : (shiftBit r).toNat < 2 ^ 31) :
    r.toNat = 2 * (shiftBit r).toNat := by
  have hr := r.toNat_lt
  rw [toNat_shiftBit] at h ⊢
  split at h
  · have htop : (r.toNat / 2 ^^^ 0xEDB88320).testBit 31 = true := by
      rw [Nat.testBit_xor, Nat.testBit_lt_two_pow (show r.toNat / 2 < 2 ^ 31 by omega)]
      decide
    exact absurd (Nat.ge_two_pow_of_testBit htop) (Nat.not_le.2 h)
  · rename_i hodd
    rw [if_neg hodd]
    omega

theorem toNat_of_shiftBits_lt {n k : Nat} {r : UInt32} (hn : n + k ≤ 32)
    (h : (shiftBits n r).toNat < 2 ^ k) : r.toNat = 2 ^ n * (shiftBits n r).toNat := by
  induction n generalizing r with
  | zero => exact (Nat.one_mul _).symm
  | succ n ih =>
    have hshift := ih (r := shiftBit r) (by omega) h
    have hlt : (shiftBit r).toNat < 2 ^ 31 := by
      rw [hshift]
      calc 2 ^ n * (shiftBits n (shiftBit r)).toNat < 2 ^ n * 2 ^ k :=
            Nat.mul_lt_mul_of_pos_left h (Nat.two_pow_pos n)
        _ = 2 ^ (n + k) := (Nat.pow_add ..).symm
        _ ≤ 2 ^ 31 := Nat.pow_le_pow_right (by decide) (by omega)
    rw [toNat_of_shiftBit_lt hlt, hshift, shiftBits, Nat.pow_succ, ← Nat.mul_assoc,
      Nat.mul_comm 2]

theorem feedByte_xor (r s : UInt32) (b c : UInt8) :
    feedByte r b ^^^ feedByte s c = shiftBits 8 (r ^^^ s ^^^ (b ^^^ c).toUInt32) := by
  rw [feedByte, feedByte, ← shiftBits_xor, UInt8.toUInt32_xor]
  ac_rfl

theorem feedByte_inj {r s : UInt32} {b : UInt8} (h : feedByte r b = feedByte s b) : r = s := by
  have hxor := feedByte_xor r s b b
  rw [UInt8.xor_self, UInt32.xor_eq_zero_iff.2 h] at hxor
  have hzero := toNat_of_shiftBits_lt (n := 8) (k := 0) (by decide)
    (show (shiftBits 8 (r ^^^ s ^^^ (0 : UInt8).toUInt32)).toNat < 2 ^ 0 by rw [← hxor]; decide)
  rw [← hxor] at hzero
  exact UInt32.xor_eq_zero_iff.1 (UInt32.toNat_inj.1 (by simpa using hzero))

theorem foldl_feedByte_inj {bytes : List UInt8} {r s : UInt32}
    (h : bytes.foldl feedByte r = bytes.foldl feedByte s) : r = s := by
  induction bytes generalizing r s with
  | nil => exact h
  | cons b rest ih => exact feedByte_inj (ih h)

/-- A multiple of 256 takes in a byte by exclusive or as it does by addition. -/
theorem mul_xor_byte (n : Nat) (b : UInt8) : 2 ^ 8 * n ^^^ b.toNat = b.toNat + 256 * n := by
  have hb := b.toNat_lt
  have hdiv := Nat.xor_div_two_pow (a := 2 ^ 8 * n) (b := b.toNat) (n := 8)
  have hmod := Nat.xor_mod_two_pow (a := 2 ^ 8 * n) (b := b.toNat) (n := 8)
  rw [Nat.mul_div_cancel_left n (by decide), Nat.div_eq_of_lt hb, Nat.xor_zero] at hdiv
  rw [Nat.mul_mod_right, Nat.mod_eq_of_lt hb, Nat.zero_xor] at hmod
  omega

/-- Registers that at most four bytes bring together differ by what the bytes differ by. -/
theorem xor_eq_of_foldl {xs ys : List UInt8} {r s : UInt32} (hlen : xs.length = ys.length)
    (hle : xs.length ≤ 4) (h : xs.foldl feedByte r = ys.foldl feedByte s) :
    (r ^^^ s).toNat = Word.ofBytes (List.zipWith (· ^^^ ·) xs ys) := by
  induction xs generalizing ys r s with
  | nil =>
    cases List.length_eq_zero_iff.1 hlen.symm
    have hrs : r = s := h
    rw [UInt32.xor_eq_zero_iff.2 hrs]
    rfl
  | cons x rest ih =>
    cases ys with
    | nil => cases hlen
    | cons y rest' =>
      have hlen' : rest.length = rest'.length := Nat.succ.inj hlen
      have hle' : rest.length ≤ 3 := Nat.le_of_succ_le_succ hle
      have hdiff := ih hlen' (Nat.le_succ_of_le hle') h
      have hlt := Word.ofBytes_lt (List.zipWith (· ^^^ ·) rest rest')
      rw [← hdiff, feedByte_xor, List.length_zipWith, ← hlen', Nat.min_self, Word.limit_eq] at hlt
      have hback := toNat_of_shiftBits_lt (by omega) hlt
      rw [← feedByte_xor, hdiff] at hback
      have hr : r ^^^ s = r ^^^ s ^^^ (x ^^^ y).toUInt32 ^^^ (x ^^^ y).toUInt32 := by
        rw [UInt32.xor_assoc (r ^^^ s), UInt32.xor_self, UInt32.xor_zero]
      rw [hr, UInt32.toNat_xor, hback, UInt8.toNat_toUInt32, mul_xor_byte]
      rfl

theorem eq_of_ofBytes_zipWith {xs ys : List UInt8} (hlen : xs.length = ys.length)
    (h : Word.ofBytes (List.zipWith (· ^^^ ·) xs ys) = 0) : xs = ys := by
  induction xs generalizing ys with
  | nil => exact (List.length_eq_zero_iff.1 hlen.symm).symm
  | cons x rest ih =>
    cases ys with
    | nil => cases hlen
    | cons y rest' =>
      simp only [List.zipWith_cons_cons, Word.ofBytes, Nat.add_eq_zero_iff] at h
      have hxy : x = y := UInt8.xor_eq_zero_iff.1 (UInt8.toNat_inj.1 h.1)
      rw [hxy, ih (Nat.succ.inj hlen) (by omega)]

/-- Messages that differ within four bytes that follow one another have different checksums. -/
theorem eq_of_crc32 {before xs ys after : List UInt8} (hlen : xs.length = ys.length)
    (hle : xs.length ≤ 4) (h : crc32 (before ++ xs ++ after) = crc32 (before ++ ys ++ after)) :
    xs = ys := by
  simp only [crc32, List.foldl_append, UInt32.xor_left_inj] at h
  have hxor := xor_eq_of_foldl hlen hle (foldl_feedByte_inj h)
  rw [UInt32.xor_self] at hxor
  exact eq_of_ofBytes_zipWith hlen hxor.symm

end Checksum
end Concordance
