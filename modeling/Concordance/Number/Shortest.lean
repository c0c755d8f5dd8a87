import Concordance.Number.Binary64

/-! # Shortest decimals

The decimal that stands for a binary number: of all decimals that read back as the number, one with
the fewest digits, and among those the nearest.
-/
namespace Concordance

/-- The number `digits * 10 ^ exponent`. -/
structure Decimal where
  digits : Nat
  exponent : Int
  deriving DecidableEq, Repr

namespace Decimal

/-- The decimal order of `num / den`: the largest `k` with `10 ^ k ≤ num / den`. -/
def order (num den : Nat) : Int :=
  if den ≤ num then ((Nat.toDigits 10 (num / den)).length : Int) - 1
  else -((Nat.toDigits 10 ((den + num - 1) / num - 1)).length : Int)

/-- The decimals that read back as a number, in quarters of its last binary place. -/
structure Interval where
  low : Nat
  value : Nat
  high : Nat
  /-- The two ends belong to the interval. -/
  closed : Bool

/-- The interval is narrower below a power of two, where the spacing halves. -/
def interval (x : Binary64) : Interval where
  low := 4 * x.mantissa -
    (if x.mantissa = Binary64.fullMantissa ∧ Binary64.minExponent < x.exponent then 1 else 2)
  value := 4 * x.mantissa
  high := 4 * x.mantissa + 2
  closed := x.mantissa % 2 = 0

/-- A multiple of the grid step `step / unit` lies in the interval. -/
def Interval.contains (i : Interval) (step unit n : Nat) : Bool :=
  if i.closed then i.low * unit ≤ n * step && n * step ≤ i.high * unit
  else i.low * unit < n * step && n * step < i.high * unit

/-- The nearer of the two multiples around the value, if it or else the other is in the interval. -/
def Interval.nearest (i : Interval) (step unit : Nat) : Option Nat :=
  let below := i.value * unit / step
  let twice := 2 * (i.value * unit)
  let middle := (2 * below + 1) * step
  let (first, second) :=
    if twice < middle ∨ (twice = middle ∧ below % 2 = 0) then (below, below + 1)
    else (below + 1, below)
  if i.contains step unit first then some first
  else if i.contains step unit second then some second
  else none

/-- Tries grids of one more digit each, starting from the step `10 ^ k`. -/
def search (i : Interval) (quarter : Nat × Nat) : (tries : Nat) → (k : Int) → Decimal
  | 0, k => ⟨0, k⟩
  | tries + 1, k =>
    let (step, unit) :=
      if 0 ≤ k then (Nat.pow 10 k.toNat * quarter.2, quarter.1)
      else (quarter.2, Nat.pow 10 (-k).toNat * quarter.1)
    match i.nearest step unit with
    | some n => ⟨n, k⟩
    | none => search i quarter tries (k - 1)

/-- Zeros at the end move into the exponent. -/
def trim : (tries : Nat) → Decimal → Decimal
  | 0, d => d
  | tries + 1, d => if d.digits % 10 = 0 then trim tries ⟨d.digits / 10, d.exponent + 1⟩ else d

/-- The shortest decimal of a magnitude; seventeen digits always suffice. -/
def shortest (x : Binary64) : Decimal :=
  if x.isZero then ⟨0, 0⟩
  else
    let (num, den) := Binary64.scale x.mantissa 1 x.exponent
    trim 20 (search (interval x) (Binary64.scale 1 1 (x.exponent - 2)) 18 (order num den))

end Decimal

namespace Binary64

def zeros (n : Nat) : String := String.ofList (List.replicate n '0')

/-- The written form of a decimal: positional while the point falls within sixteen digits of its
start or five places before it, and otherwise one digit, a fraction and a signed exponent. -/
def layout (d : Decimal) : String :=
  let digits := toString d.digits
  let point : Int := digits.length + d.exponent
  if 0 ≤ d.exponent ∧ point ≤ 16 then digits ++ zeros d.exponent.toNat ++ ".0"
  else if 0 < point ∧ point ≤ 16 then
    String.ofList (digits.toList.take point.toNat) ++ "." ++
      String.ofList (digits.toList.drop point.toNat)
  else if -5 < point ∧ point ≤ 0 then "0." ++ zeros (-point).toNat ++ digits
  else
    let fraction := digits.toList.drop 1
    let tail := if fraction.isEmpty then "" else "." ++ String.ofList fraction
    let exponent := point - 1
    String.ofList (digits.toList.take 1) ++ tail ++ "e" ++
      (if exponent < 0 then "-" else "+") ++ toString exponent.natAbs

/-- The number as text: it always shows a point or an exponent. -/
def text (x : Binary64) : String :=
  let magnitude := if x.isZero then "0.0" else layout (Decimal.shortest x)
  if x.negative then "-" ++ magnitude else magnitude

end Binary64

end Concordance
