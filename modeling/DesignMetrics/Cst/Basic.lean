import DesignMetrics.Json.Decode
import DesignMetrics.Syntax.Basic

/-!
Concrete syntax trees, as a grammar-driven parser yields them: every token and every phrase of a
file is a node with a kind, the field that it fills in its parent, and its byte offsets.
-/

namespace DesignMetrics

/-- What a parser says about one node of a tree. -/
structure CstHead where
  kind : String
  named : Bool
  field : String
  start : Nat
  stop : Nat
  deriving DecidableEq, Repr

inductive Cst where
  | node (head : CstHead) (children : List Cst)

namespace Cst

def head : Cst → CstHead
  | node head _ => head

def children : Cst → List Cst
  | node _ children => children

open Json (Reads string? nat?)

def headOfItems? (kind named field start stop : Json) : Option CstHead := do
  return { kind := ← string? kind, named := (← nat? named) == 1, field := ← string? field
           start := ← nat? start, stop := ← nat? stop }

mutual

def ofJson? : Reads Cst
  | .array [kind, named, field, start, stop] =>
    (headOfItems? kind named field start stop).map fun h => .node h []
  | .array [kind, named, field, start, stop, .array items] => do
    return .node (← headOfItems? kind named field start stop) (← ofItems? items)
  | _ => none

def ofItems? : List Json → Option (List Cst)
  | [] => some []
  | j :: rest => do return (← ofJson? j) :: (← ofItems? rest)

end

end Cst

/-- The bytes of a file. -/
structure Source where
  bytes : ByteArray
  rows : Array Nat

namespace Source

def ofBytes (bytes : ByteArray) : Source :=
  let step := fun (rows : Array Nat × Nat) (b : UInt8) =>
    (rows.1.push rows.2, if b = 10 then rows.2 + 1 else rows.2)
  let (rows, last) := bytes.data.foldl step (#[], 0)
  ⟨bytes, rows.push last⟩

def row (s : Source) (offset : Nat) : Nat :=
  match s.rows[offset]? with
  | some r => r
  | none => s.rows.back?.getD 0

def text (s : Source) (start stop : Nat) : String :=
  (String.fromUTF8? (s.bytes.extract start stop)).getD ""

def span (s : Source) (start stop : Nat) : Span :=
  ⟨(s.row start + 1).toUInt64, (s.row stop + 1).toUInt64⟩

end Source

end DesignMetrics
