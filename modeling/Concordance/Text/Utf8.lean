/-! # UTF-8

Text as bytes and back. A reading that fails says how many bytes before the fault were text, and how
many bytes belong to the fault; when the input ends inside a character there is no such count.
-/
namespace Concordance.Text

/-- The bytes of a text. -/
def utf8 (text : List Char) : List UInt8 := text.flatMap String.utf8EncodeChar

/-- Why bytes are not text. -/
structure Utf8Fault where
  validUpTo : Nat
  badLength : Option Nat
  deriving DecidableEq, Repr

def Utf8Fault.message (fault : Utf8Fault) : String :=
  match fault.badLength with
  | some n => s!"invalid utf-8 sequence of {n} bytes from index {fault.validUpTo}"
  | none => s!"incomplete utf-8 byte sequence from index {fault.validUpTo}"

namespace Utf8

/-- A byte that continues a character. -/
def isContinuation (b : UInt8) : Bool := 0x80 ≤ b.toNat && b.toNat < 0xC0

/-- The second byte of a three-byte character: no overlong form, no surrogate. -/
def isSecondOfThree (first second : UInt8) : Bool :=
  (if first = 0xE0 then 0xA0 else 0x80) ≤ second.toNat &&
    second.toNat < (if first = 0xED then 0xA0 else 0xC0)

/-- The second byte of a four-byte character: no overlong form, nothing past U+10FFFF. -/
def isSecondOfFour (first second : UInt8) : Bool :=
  (if first = 0xF0 then 0x90 else 0x80) ≤ second.toNat &&
    second.toNat < (if first = 0xF4 then 0x90 else 0xC0)

/-- The character at the head of the bytes and its length, or the length of the fault there. -/
def head (first : UInt8) (rest : List UInt8) : Except (Option Nat) (Char × Nat) :=
  let tail (b : UInt8) := b.toNat % 64
  if first.toNat < 0x80 then .ok (Char.ofNat first.toNat, 1)
  else if 0xC2 ≤ first.toNat ∧ first.toNat < 0xE0 then
    match rest with
    | [] => .error none
    | b :: _ =>
      if isContinuation b then .ok (Char.ofNat (first.toNat % 32 * 64 + tail b), 2)
      else .error (some 1)
  else if 0xE0 ≤ first.toNat ∧ first.toNat < 0xF0 then
    match rest with
    | [] => .error none
    | b :: rest =>
      if !isSecondOfThree first b then .error (some 1)
      else match rest with
        | [] => .error none
        | d :: _ =>
          if isContinuation d then
            .ok (Char.ofNat (first.toNat % 16 * 4096 + tail b * 64 + tail d), 3)
          else .error (some 2)
  else if 0xF0 ≤ first.toNat ∧ first.toNat < 0xF5 then
    match rest with
    | [] => .error none
    | b :: rest =>
      if !isSecondOfFour first b then .error (some 1)
      else match rest with
        | [] => .error none
        | d :: rest =>
          if !isContinuation d then .error (some 2)
          else match rest with
            | [] => .error none
            | e :: _ =>
              if isContinuation e then
                .ok (Char.ofNat (first.toNat % 8 * 262144 + tail b * 4096 + tail d * 64 + tail e), 4)
              else .error (some 3)
  else .error (some 1)

/-- Reads characters; `skip` bytes at the front belong to a character already read. -/
def readFrom (position : Nat) : (skip : Nat) → List UInt8 → Except Utf8Fault (List Char)
  | _, [] => .ok []
  | skip + 1, _ :: rest => readFrom (position + 1) skip rest
  | 0, first :: rest =>
    match head first rest with
    | .error badLength => .error ⟨position, badLength⟩
    | .ok (c, length) => (readFrom (position + 1) (length - 1) rest).map (c :: ·)

end Utf8

/-- The text that the bytes spell. -/
def ofUtf8 (bytes : List UInt8) : Except Utf8Fault (List Char) := Utf8.readFrom 0 0 bytes

end Concordance.Text
