import DesignMetrics.Json.Basic

/-!
Reading typed values out of JSON values.
-/

namespace DesignMetrics.Json

abbrev Reads (α : Type) := Json → Option α

def string? : Reads String
  | .string s => some s
  | _ => none

def bool? : Reads Bool
  | .bool b => some b
  | _ => none

def natBelow? (bound : Nat) : Reads Nat
  | .integer i => if 0 ≤ i ∧ i < bound then some i.toNat else none
  | _ => none

def nat? : Reads Nat := natBelow? 0x10000000000000000

def word? : Reads UInt64 := fun j => (nat? j).map Nat.toUInt64

def double? : Reads Float
  | .integer i =>
    let size := i.natAbs.toUInt64.toFloat
    some (if i < 0 then -size else size)
  | .decimal x => some x
  | _ => none

def list? {α : Type} (read : Reads α) : Reads (List α)
  | .array items => items.mapM read
  | _ => none

def optional? {α : Type} (read : Reads α) : Reads (Option α)
  | .null => some none
  | j => (read j).map some

def entries? {α : Type} (read : Reads α) : Reads (List (String × α))
  | .object fields => fields.mapM fun (k, j) => (read j).map fun a => (k, a)
  | _ => none

/-- What a record says about one of its fields. -/
inductive Field where
  | given (value : Json)
  | missing
  | beyond

namespace Field

def required {α : Type} (read : Reads α) : Field → Option α
  | given j => read j
  | _ => none

def optional {α : Type} (read : Reads α) : Field → Option (Option α)
  | given j => optional? read j
  | missing => some none
  | beyond => none

def defaulted {α : Type} (value : α) (read : Reads α) : Field → Option α
  | given j => read j
  | _ => some value

end Field

def field? (fields : List (String × Json)) (name : String) : Option Field :=
  match fields.filter fun f => f.1 == name with
  | [] => some .missing
  | [(_, j)] => some (.given j)
  | _ => none

/-- A record is an object with its fields, of which unknown ones are passed over and known ones
stand at most once, or an array of its fields in order. -/
def fields? (names : List String) : Reads (List Field)
  | .object fields => names.mapM (field? fields)
  | .array items =>
    if items.length ≤ names.length then
      some (items.map .given ++ List.replicate (names.length - items.length) .beyond)
    else none
  | _ => none

/-- How freely the alternatives of a choice may be written, which depends on where the value comes
from. -/
structure Leeway where
  listed : Bool
  hollow : Bool
  deriving DecidableEq, Repr

namespace Leeway

def ofText : Leeway := ⟨true, false⟩

def ofValue : Leeway := ⟨false, false⟩

def ofTagged : Leeway := ⟨true, true⟩

end Leeway

def held? (w : Leeway) (names : List String) : Reads (List Field)
  | .array items => if w.listed then fields? names (.array items) else none
  | j => fields? names j

/-- A choice is an object with one field, named for the alternative, or, if the alternative holds
nothing, a string. -/
def choice? : Reads (String × Option Json)
  | .string name => some (name, none)
  | .object [(name, j)] => some (name, some j)
  | _ => none

def unit? (w : Leeway) : Option Json → Option Unit
  | none => some ()
  | some .null => some ()
  | some (.object []) => if w.hollow then some () else none
  | _ => none

end DesignMetrics.Json
