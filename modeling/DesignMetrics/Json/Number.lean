import DesignMetrics.Json.Basic

/-!
Numbers in JSON texts.
-/

namespace DesignMetrics.Json

/-- A number as it is written. -/
structure Numeral where
  negative : Bool
  whole : List Nat
  fraction : List Nat
  exponent : Option (Bool × List Nat)
  deriving DecidableEq

namespace Numeral

def digit? (c : Char) : Option Nat := if c.isDigit then some (c.toNat - '0'.toNat) else none

def digits (cs : List Char) : List Nat × List Char :=
  ((cs.takeWhile Char.isDigit).filterMap digit?, cs.dropWhile Char.isDigit)

def exponent? (cs : List Char) : Option (Option (Bool × List Nat)) :=
  match cs with
  | [] => some none
  | e :: rest =>
    if e = 'e' ∨ e = 'E' then
      let (negative, rest) :=
        match rest with
        | '-' :: rest => (true, rest)
        | '+' :: rest => (false, rest)
        | _ => (false, rest)
      match digits rest with
      | ([], _) => none
      | (ds, []) => some (some (negative, ds))
      | _ => none
    else none

def read? (cs : List Char) : Option Numeral := do
  let (negative, cs) :=
    match cs with
    | '-' :: rest => (true, rest)
    | _ => (false, cs)
  let (whole, cs) := digits cs
  guard (whole = [0] ∨ (whole ≠ [] ∧ whole.head? ≠ some 0))
  let (fraction, cs) ←
    match cs with
    | '.' :: rest =>
      match digits rest with
      | ([], _) => none
      | found => some found
    | _ => some ([], cs)
  return ⟨negative, whole, fraction, ← exponent? cs⟩

def wordMax : Nat := 0xffffffffffffffff

def signedMax : Nat := 0x8000000000000000

def takeDigits (n : Nat) : List Nat → Nat × Nat
  | [] => (n, 0)
  | d :: rest => if n * 10 + d ≤ wordMax then takeDigits (n * 10 + d) rest else (n, rest.length + 1)

def value (ds : List Nat) : Nat := ds.foldl (fun n d => n * 10 + d) 0

def power (n : Nat) : Float := Float.ofScientific 1 false n

def scale (x : Float) (exponent : Int) : Option Float :=
  if exponent.natAbs ≤ 308 then
    let y := if 0 ≤ exponent then x * power exponent.natAbs else x / power exponent.natAbs
    if y.isInf then none else some y
  else if x == 0.0 then some x
  else if 0 ≤ exponent then none
  else scale (x / power 308) (exponent + 308)
termination_by exponent.natAbs

/-- The leading digits of a number, as many as fit an unsigned 64-bit word, become a double, which
is then multiplied or divided by a power of ten. -/
def toDouble? (n : Numeral) : Option Float := do
  let (leading, extra) := takeDigits 0 n.whole
  let (leading, left) := takeDigits leading n.fraction
  let places := n.fraction.length - left
  let written : Int :=
    match n.exponent with
    | none => 0
    | some (negative, ds) => if negative then -(value ds : Int) else value ds
  let x ← scale leading.toUInt64.toFloat ((extra : Int) - (places : Int) + written)
  return if n.negative then -x else x

/-- A number without fraction and exponent that fits a 64-bit word is an integer. Every other number
is a double, or broken if it is too large for one. -/
def toJson (n : Numeral) : Json :=
  let size := value n.whole
  if n.fraction.isEmpty ∧ n.exponent.isNone ∧ ¬ n.negative ∧ size ≤ wordMax then .integer size
  else if n.fraction.isEmpty ∧ n.exponent.isNone ∧ n.negative ∧ 0 < size ∧ size ≤ signedMax then
    .integer (-(size : Int))
  else
    match n.toDouble? with
    | some x => .decimal x
    | none => .broken

end Numeral

end DesignMetrics.Json
