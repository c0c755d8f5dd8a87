/-! # Places in a text

Where in a text something was noticed. A message may end in a place; the place is then read off the
message, and what stands before it is the message proper.
-/
namespace Concordance.Json

/-- A line, and the bytes since it began. Lines count from one. -/
structure Place where
  line : Nat
  column : Nat
  deriving DecidableEq, Repr

namespace Place

def atLine : String := " at line "

def atColumn : String := " column "

/-- The end of a message about a place. -/
def text (place : Place) : String := s!"{atLine}{place.line}{atColumn}{place.column}"

/-- A number of at most 64 bits from its digits, of which there is at least one. -/
def number? : List Char → Option Nat
  | [] => none
  | digits =>
    digits.foldlM (fun value c =>
      let value := value * 10 + (c.toNat - '0'.toNat)
      if value ≤ 0xFFFFFFFFFFFFFFFF then some value else none) 0

/-- The message proper and the place, of a message that ends in one. The message is taken apart
from its end: digits, the mark of the column, digits, the mark of the line. -/
def ofMessage? (message : String) : Option (String × Place) := do
  let (column, rest) := message.toList.reverse.span Char.isDigit
  let rest ← atColumn.toList.reverse.isPrefixOf? rest
  let (line, rest) := rest.span Char.isDigit
  let rest ← atLine.toList.reverse.isPrefixOf? rest
  return (String.ofList rest.reverse, ⟨← number? line.reverse, ← number? column.reverse⟩)

/-- A message with the place at its end written anew. Line zero is nowhere, so that place is left
out. -/
def settled (message : String) : String :=
  match ofMessage? message with
  | none => message
  | some (rest, place) => if place.line = 0 then rest else rest ++ place.text

end Place

end Concordance.Json
