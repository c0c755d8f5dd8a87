import Concordance.Text.CodePoint
import Concordance.Text.Lowercase.Ranges

/-! # Lower case

The full lower-case mapping of a text: character by character, except that a sigma at the end of a
word takes its final form and a dotted capital I keeps its dot as a mark.
-/
namespace Concordance.Text

namespace Lowercase

def Run.contains (r : Run) (n : Nat) : Bool :=
  r.first ≤ n && n ≤ r.last && (n - r.first) % r.stride = 0

/-- The lower-case form of one character, out of context. -/
def simple (c : Char) : Char :=
  match runs.find? (·.contains c.toNat) with
  | some r => Char.ofNat (c.toNat + r.shift).toNat
  | none => c

/-- A letter with a case comes next, behind characters that case rules look past. -/
def meetsCased (text : List Char) : Bool :=
  match text.dropWhile (inRanges caseIgnorableRanges) with
  | [] => false
  | c :: _ => inRanges casedRanges c

/-- The mapping of one character between the text before it, last character first, and after it. -/
def mapped (before : List Char) (c : Char) (after : List Char) : List Char :=
  if c = 'Σ' then [if meetsCased before && !meetsCased after then 'ς' else 'σ']
  else if c = 'İ' then ['i', '\u0307']
  else [simple c]

def mapFrom (before : List Char) : List Char → List Char
  | [] => []
  | c :: rest => mapped before c rest ++ mapFrom (c :: before) rest

end Lowercase

def lowercase (text : String) : String := String.ofList (Lowercase.mapFrom [] text.toList)

end Concordance.Text
