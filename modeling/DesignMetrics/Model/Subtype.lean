import DesignMetrics.Model.Registry

/-!
Inheritance.
-/

namespace DesignMetrics.Registry

def superCount (t : TypeNode) : Nat := t.refs.interfaces.length + 1

/-- Hierarchies may have cycles, so the search remembers where it has been. -/
def searchUp (r : Registry) (goal : NodeId) : Nat → List NodeId → List TypeNode → Bool
  | 0, _, _ => false
  | _ + 1, _, [] => false
  | n + 1, seen, t :: queue =>
    if t.id = goal then true
    else if t.id ∈ seen then searchUp r goal n seen queue
    else searchUp r goal n (t.id :: seen) (queue ++ r.superTypes t)

def searchSteps (r : Registry) (t : TypeNode) : Nat :=
  r.types.foldl (fun n u => n + superCount u) (superCount t) + 1

/-- A type is a subtype of itself and of every type that can be reached from it by going to parents
and interfaces. -/
def isSubtype (r : Registry) (t other : TypeNode) : Bool :=
  t.id = other.id || r.searchUp other.id (r.searchSteps t) [t.id] (r.superTypes t)

end DesignMetrics.Registry
