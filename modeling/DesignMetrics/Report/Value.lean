import DesignMetrics.Decimal.Fixed
import DesignMetrics.Decimal.Shortest

/-!
Metrics as they stand in a report for people.
-/

namespace DesignMetrics.Report

def places : Nat := 3

def fractionDigits (num den : Nat) : List Char :=
  ((Decimal.fixed places num den).reverse.dropWhile (· == '0')).reverse

def wholeDigits (b : Decimal.Binary) : List Char :=
  if b.mantissa = 0 then ['0']
  else
    let s := Decimal.shortest b
    s.digits ++ List.replicate (s.exponent.toNat + 1 - s.digits.length) '0'

/-- Whole numbers stand without a fraction, others with three places and without zeros at the end.
-/
def value (x : Float) : String :=
  let b := Decimal.Binary.ofBits x.toBits
  let digits := if b.isWhole then wholeDigits b else fractionDigits b.ratio.1 b.ratio.2
  String.ofList (if b.negative then '-' :: digits else digits)

end DesignMetrics.Report
