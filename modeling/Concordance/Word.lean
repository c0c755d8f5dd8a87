/-! # Words

Numbers as bytes of a fixed width, least significant byte first.
-/
namespace Concordance.Word

def bytes : (width : Nat) → Nat → List UInt8
  | 0, _ => []
  | width + 1, n => UInt8.ofNat n :: bytes width (n / 256)

def ofBytes : List UInt8 → Nat
  | [] => 0
  | b :: rest => b.toNat + 256 * ofBytes rest

theorem length_bytes (width n : Nat) : (bytes width n).length = width := by
  induction width generalizing n with
  | zero => rfl
  | succ width ih => simp [bytes, ih]

/-- How many numbers the bytes of a width can tell apart. -/
def limit : (width : Nat) → Nat
  | 0 => 1
  | width + 1 => 256 * limit width

/-- A number that fits 32 bits. -/
def Fits (n : Nat) : Prop := n < limit 4

theorem ofBytes_bytes (width n : Nat) (h : n < limit width) : ofBytes (bytes width n) = n := by
  induction width generalizing n with
  | zero => simp [limit] at h; simp [bytes, ofBytes, h]
  | succ width ih =>
    simp only [limit] at h
    have hq : n / 256 < limit width := by omega
    simp only [bytes, ofBytes, ih _ hq]
    have : (UInt8.ofNat n).toNat = n % 256 := by simp
    omega

end Concordance.Word
