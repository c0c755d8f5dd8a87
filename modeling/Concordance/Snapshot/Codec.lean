import Concordance.Text.Utf8
import Concordance.Word

/-! # Codecs

Pairs of a writer and a reader for values as bytes: numbers in words of a fixed width, counts in
eight bytes, alternatives by number. A reader takes its value from the front of the bytes.
-/
namespace Concordance

namespace Codec

/-- Why bytes are not a value. -/
inductive Fault where
  | endOfData
  | endOfText
  | badTag (tag : Nat)
  | badVariant (number count : Nat)
  | badText (fault : Text.Utf8Fault)
  deriving DecidableEq, Repr

def Fault.message : Fault → String
  | endOfData => "io error: unexpected end of file"
  | endOfText => "io error: "
  | badTag tag => s!"tag for enum is not valid, found {tag}"
  | badVariant number count =>
    s!"invalid value: integer `{number}`, expected variant index 0 <= i < {count}"
  | badText fault => s!"string is not valid utf8: {fault.message}"

abbrev Reader (α : Type) := StateT (List UInt8) (Except Fault) α

end Codec

structure Codec (α : Type) where
  write : α → List UInt8
  read : Codec.Reader α

namespace Codec

/-- Takes so many bytes from the front, or answers `short` if there are fewer. -/
def takeBytes (short : Fault) (n : Nat) : Reader (List UInt8) := fun bytes =>
  let taken := bytes.take n
  if taken.length < n then .error short else .ok (taken, bytes.drop n)

def word (width : Nat) : Codec Nat where
  write := Word.bytes width
  read := do return Word.ofBytes (← takeBytes .endOfData width)

/-- Ids, positions and other 32-bit numbers. -/
def id : Codec Nat := word 4

def count : Codec Nat := word 8

def pair (a : Codec α) (b : Codec β) : Codec (α × β) where
  write := fun (x, y) => a.write x ++ b.write y
  read := do
    let x ← a.read
    return (x, ← b.read)

/-- A codec for another form of the same values. -/
def map (c : Codec α) (inward : α → β) (outward : β → α) : Codec β where
  write x := c.write (outward x)
  read := do return inward (← c.read)

def readMany (read : Reader α) : Nat → Reader (List α)
  | 0 => pure []
  | n + 1 => do
    let x ← read
    return x :: (← readMany read n)

def list (c : Codec α) : Codec (List α) where
  write xs := count.write xs.length ++ xs.flatMap c.write
  read := do readMany c.read (← count.read)

def option (c : Codec α) : Codec (Option α) where
  write
    | none => [0]
    | some x => 1 :: c.write x
  read := do
    match ← (word 1).read with
    | 0 => return none
    | 1 => return some (← c.read)
    | tag => throw (.badTag tag)

def text : Codec String where
  write s := count.write s.utf8ByteSize ++ Text.utf8 s.toList
  read := do
    match Text.ofUtf8 (← takeBytes .endOfText (← count.read)) with
    | .ok s => return String.ofList s
    | .error fault => throw (.badText fault)

/-- One of a fixed list of values, written as its place in the list. -/
def choice [DecidableEq α] (all : List α) : Codec α where
  write x := id.write (all.idxOf x)
  read := do
    let number ← id.read
    match all[number]? with
    | some x => return x
    | none => throw (.badVariant number all.length)

end Codec

end Concordance
