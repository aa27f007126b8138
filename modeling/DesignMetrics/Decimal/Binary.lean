/-!
Doubles as exact numbers. A finite double is a sign, a whole mantissa and a power of two, so its
value is a fraction of two natural numbers, and everything that is printed about it is computed
from that fraction.
-/

namespace DesignMetrics.Decimal

/-- The number `mantissa * 2 ^ exponent` with a sign. -/
structure Binary where
  negative : Bool
  mantissa : Nat
  exponent : Int
  deriving DecidableEq, Repr

namespace Binary

def leastNormal : Nat := 0x10000000000000

def biasedExponent (bits : UInt64) : Nat := bits.toNat / leastNormal % 2048

def ofBits (bits : UInt64) : Binary :=
  let fraction : Nat := bits.toNat % leastNormal
  let biased : Nat := biasedExponent bits
  let negative : Bool := 0x8000000000000000 ≤ bits.toNat
  if biased = 0 then ⟨negative, fraction, -1074⟩
  else ⟨negative, leastNormal + fraction, (biased : Int) - 1075⟩

def ratio (b : Binary) : Nat × Nat :=
  (b.mantissa * Nat.pow 2 b.exponent.toNat, Nat.pow 2 (-b.exponent).toNat)

def isWhole (b : Binary) : Bool := b.ratio.1 % b.ratio.2 == 0

end Binary

end DesignMetrics.Decimal
