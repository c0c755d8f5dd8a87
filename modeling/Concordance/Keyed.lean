import Std.Data.ExtTreeMap
import Std.Data.ExtTreeSet

/-! # Finite maps

The stores of a database are finite maps with ordered keys: ids by number and names by code point,
which is also the order of their UTF-8 bytes.
-/
namespace Concordance

abbrev ById (α : Type) := Std.ExtTreeMap Nat α

abbrev ByName (α : Type) := Std.ExtTreeMap String α

abbrev IdSet := Std.ExtTreeSet Nat

/-- The largest number of a 32-bit word. Scores and positions stop there. -/
def wordMax : Nat := 0xFFFFFFFF

/-- A number, or the largest word in place of a larger one. -/
def saturate (n : Nat) : Nat := min n wordMax

/-- A number as far as a word holds it. -/
def wrap (n : Nat) : Nat := n % (wordMax + 1)

theorem wrap_of_le {n : Nat} (h : n ≤ wordMax) : wrap n = n :=
  Nat.mod_eq_of_lt (Nat.lt_succ_of_le h)

/-- The sum of some numbers. -/
def total (ns : List Nat) : Nat := ns.foldr (· + ·) 0

end Concordance
