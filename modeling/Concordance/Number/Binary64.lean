/-! # Binary floating point

The finite numbers of the 64-bit binary format, as a sign and a magnitude `mantissa * 2 ^ exponent`.
Products and quotients are formed exactly and rounded once, to nearest with ties to even.
-/
namespace Concordance

structure Binary64 where
  negative : Bool
  mantissa : Nat
  exponent : Int
  deriving DecidableEq, Repr

namespace Binary64

/-- The exponent of the smallest positive number. -/
def minExponent : Int := -1074

/-- The exponent of the numbers with the widest spacing. -/
def maxExponent : Int := 971

/-- The smallest mantissa of 53 binary digits. -/
def fullMantissa : Nat := 0x10000000000000

def zero : Binary64 := ⟨false, 0, minExponent⟩

def isZero (x : Binary64) : Bool := x.mantissa = 0

/-- The quotient rounded to the nearest integer, a tie to the even one. -/
def roundDiv (num den : Nat) : Nat :=
  let quotient := num / den
  let twice := 2 * (num % den)
  if twice < den then quotient
  else if den < twice then quotient + 1
  else quotient + quotient % 2

/-- The numerator and denominator of `num / den * 2 ^ e`. -/
def scale (num den : Nat) (e : Int) : Nat × Nat :=
  if 0 ≤ e then (num <<< e.toNat, den) else (num, den <<< (-e).toNat)

/-- The exponent at which `num / den` has 53 binary digits, or the smallest one there is. -/
def exponentOf (num den : Nat) : Int :=
  let order : Int := num.log2 - den.log2
  let (scaled, unit) := scale num den (-order)
  max minExponent (if unit ≤ scaled then order - 52 else order - 53)

/-- The number nearest to `num / den`, unless that is out of range. -/
def ofRatio (num den : Nat) : Option Binary64 :=
  if num = 0 then some zero
  else
    let e := exponentOf num den
    let (scaled, unit) := scale num den (-e)
    let m := roundDiv scaled unit
    let (m, e) := if m = 2 * fullMantissa then (fullMantissa, e + 1) else (m, e)
    if maxExponent < e then none else some ⟨false, m, e⟩

/-- The magnitude of a product. -/
def mul (x y : Binary64) : Option Binary64 :=
  let (num, den) := scale (x.mantissa * y.mantissa) 1 (x.exponent + y.exponent)
  ofRatio num den

/-- The magnitude of a quotient. -/
def div (x y : Binary64) : Option Binary64 :=
  let (num, den) := scale x.mantissa y.mantissa (x.exponent - y.exponent)
  ofRatio num den

end Binary64

end Concordance
