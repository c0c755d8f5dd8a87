import Concordance.Indexable
import Concordance.Text.Utf8
import Concordance.Word

/-! # Buffers

Bytes with the type they hold. A buffer holds one value, or the items of a list glued together with
the offset where each one ends.
-/
namespace Concordance

structure Buffer where
  domain : ObjectId
  /-- The buffer only carries a caller's bytes through. -/
  shallow : Bool
  bytes : List UInt8
  /-- Where the items of a list end; a single value has no ends. -/
  ends : List Nat
  deriving DecidableEq, Repr

namespace Buffer

def empty (domain : ObjectId) (shallow : Bool) : Buffer := ⟨domain, shallow, [], []⟩

def rewind (b : Buffer) : Buffer := { b with bytes := [], ends := [] }

def size (b : Buffer) : Nat := b.bytes.length

def isVector (b : Buffer) : Bool := !b.ends.isEmpty

def setBytes (b : Buffer) (bytes : List UInt8) : Buffer := { b with bytes, ends := [] }

def setWord (b : Buffer) (n : Nat) : Buffer := b.setBytes (Word.bytes 4 n)

/-- The id that fills the buffer. -/
def word? (b : Buffer) : Option Nat :=
  if b.bytes.length = 4 then some (Word.ofBytes b.bytes) else none

def setIds (b : Buffer) (ids : List Nat) : Buffer := b.setBytes (ids.flatMap (Word.bytes 4))

/-- Ids from each four bytes. -/
def idsOf : List UInt8 → List Nat
  | b₀ :: b₁ :: b₂ :: b₃ :: rest => Word.ofBytes [b₀, b₁, b₂, b₃] :: idsOf rest
  | _ => []

def ids (b : Buffer) : Except Error (List Nat) :=
  if b.size % 4 = 0 then .ok (idsOf b.bytes)
  else .error (.argument "ids" s!"packed id buffer has {b.size} bytes")

def append (b : Buffer) (text : String) : Buffer :=
  { b with bytes := b.bytes ++ Text.utf8 text.toList }

/-- Where pieces end that follow one another from offset `start` on. -/
def endsFrom (start : Nat) : List (List UInt8) → List Nat
  | [] => []
  | piece :: rest => (start + piece.length) :: endsFrom (start + piece.length) rest

/-- Appends texts as items of a list. -/
def appendTexts (b : Buffer) (texts : List String) : Buffer :=
  let pieces := texts.map fun text => Text.utf8 text.toList
  { b with bytes := b.bytes ++ pieces.flatten, ends := b.ends ++ endsFrom b.size pieces }

/-- Appends items up to the first that has no text. -/
def appendItems (b : Buffer) (items : List Json) : Except Error Unit × Buffer :=
  let (texts, outcome) := Json.itemTexts items
  (outcome, b.appendTexts texts)

/-- Appends a value in its text form; what was written before a failure stays. -/
def appendValue (b : Buffer) : Json → Except Error Unit × Buffer
  | .array items => b.appendItems items
  | v =>
    match v.scalarText? with
    | some text => (.ok (), b.append text)
    | none => (.error Json.objectError, b)

def textOf (bytes : List UInt8) : Except Error String :=
  match Text.ofUtf8 bytes with
  | .ok text => .ok (String.ofList text)
  | .error fault => .error (.argument "text" fault.message)

/-- All bytes as one text. -/
def text (b : Buffer) : Except Error String := textOf b.bytes

/-- The pieces of the bytes from offset `start` on that end at the given offsets. -/
def cut (start : Nat) (bytes : List UInt8) : List Nat → List (List UInt8)
  | [] => []
  | stop :: rest => bytes.take (stop - start) :: cut stop (bytes.drop (stop - start)) rest

theorem cut_endsFrom (start : Nat) (pieces : List (List UInt8)) (rest : List UInt8) :
    cut start (pieces.flatten ++ rest) (endsFrom start pieces) = pieces := by
  induction pieces generalizing start with
  | nil => rfl
  | cons piece more ih => simp [endsFrom, cut, List.append_assoc, ih]

/-- The texts of the items, or the one text of a single value. -/
def texts (b : Buffer) : Except Error (List String) :=
  if b.isVector then (cut 0 b.bytes b.ends).mapM textOf else b.text.map ([·])

/-- The texts that an index sees: a single value with an empty text has none. -/
def indexTexts (b : Buffer) : Except Error (List String) :=
  if b.bytes.isEmpty && !b.isVector then .ok [] else b.texts

end Buffer

end Concordance
