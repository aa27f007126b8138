import Std.Data.TreeSet
import DesignMetrics.NodeId

/-!
The search for a cycle in a graph of identifiers.
-/

namespace DesignMetrics

namespace Cycle

/-- What a search has come to. -/
inductive Search where
  | found (path : List NodeId)
  | clear (known : Std.TreeSet NodeId)

/-- Successors are tried in their order, so of all paths into a cycle the first one in that order is
found. -/
def tryEach (visit : Std.TreeSet NodeId → NodeId → Search)
    : Std.TreeSet NodeId → List NodeId → Search
  | known, [] => .clear known
  | known, id :: rest =>
    match visit known id with
    | .found path => .found path
    | .clear known => tryEach visit known rest

def search (next : NodeId → List NodeId)
    : Nat → List NodeId → Std.TreeSet NodeId → NodeId → Search
  | 0, _, known, _ => .clear known
  | n + 1, path, known, id =>
    if id ∈ path then .found (id :: path).reverse
    else if known.contains id then .clear known
    else
      match tryEach (search next n (id :: path)) known (next id) with
      | .found path => .found path
      | .clear known => .clear (known.insert id)

def find? (next : NodeId → List NodeId) (size : Nat) (start : NodeId) : Option (List NodeId) :=
  match search next (size + 1) [] ∅ start with
  | .found path => some path
  | .clear _ => none

end Cycle

end DesignMetrics
