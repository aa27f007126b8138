import DesignMetrics.Decimal.Binary

/-!
The shortest decimal that reads back as a given double.
-/

namespace DesignMetrics.Decimal

/-- The digits `d₁d₂…dₙ` stand for the number `d₁.d₂…dₙ * 10 ^ exponent`. -/
structure Scientific where
  digits : List Char
  exponent : Int
  deriving DecidableEq, Repr

namespace Scientific

def ofNat (n : Nat) (scale : Int) : Scientific :=
  let all := Nat.toDigits 10 n
  let kept := (all.reverse.dropWhile (· == '0')).reverse
  ⟨if kept.isEmpty then ['0'] else kept, scale + (all.length : Int) - 1⟩

end Scientific

def magnitude (num den : Nat) : Int :=
  if den ≤ num then (Nat.toDigits 10 (num / den)).length - 1
  else
    let places := (Nat.toDigits 10 (den / num)).length - 1
    if den ≤ num * Nat.pow 10 places then -places else -(places + 1 : Nat)

/-- The numbers that round to a double, as fractions over one denominator. -/
structure Interval where
  low : Nat
  value : Nat
  high : Nat
  den : Nat
  closed : Bool

namespace Interval

def around (b : Binary) : Interval :=
  let half := if b.mantissa = Binary.leastNormal ∧ -1074 < b.exponent then 1 else 2
  let scale := Nat.pow 2 (b.exponent - 2).toNat
  { low := (4 * b.mantissa - half) * scale
    value := 4 * b.mantissa * scale
    high := (4 * b.mantissa + 2) * scale
    den := Nat.pow 2 (2 - b.exponent).toNat
    closed := b.mantissa % 2 == 0 }

/-- A decimal reads back as the double if it lies between the midpoints to the two neighbouring
doubles. A midpoint itself belongs to the double with the even mantissa. -/
def contains (i : Interval) (num : Nat) : Bool :=
  if i.closed then i.low ≤ num && num ≤ i.high else i.low < num && num < i.high

def rescale (i : Interval) (scale : Int) : Interval :=
  let up := Nat.pow 10 (-scale).toNat
  { i with low := i.low * up, value := i.value * up, high := i.high * up,
           den := i.den * Nat.pow 10 scale.toNat }

def nearest? (i : Interval) (scale : Int) : Option Nat :=
  let j := i.rescale scale
  let below := j.value / j.den
  let above := below + 1
  let low := j.contains (below * j.den)
  let high := j.contains (above * j.den)
  let rest := 2 * (j.value % j.den)
  if low && high then
    some (if rest < j.den || (rest == j.den && below % 2 == 0) then below else above)
  else if low then some below
  else if high then some above
  else none

end Interval

/-- With `k` digits only the two decimals around the value can be nearest, so the search tries them
for `k = 1, 2, …, 17`, and seventeen digits always suffice. -/
def shortest (b : Binary) : Scientific :=
  let i := Interval.around b
  let top := magnitude i.value i.den
  let scales := (List.range 17).map fun (k : Nat) => top - (k : Int)
  match scales.findSome? fun s => (i.nearest? s).map fun n => Scientific.ofNat n s with
  | some found => found
  | none => Scientific.ofNat b.mantissa 0

end DesignMetrics.Decimal
