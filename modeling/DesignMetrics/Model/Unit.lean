import DesignMetrics.Model.Registry

/-!
Units and their snapshots.
-/

namespace DesignMetrics

/-- The bound statements of a file, with the identifiers that it declares. -/
structure CompilationUnit where
  path : String
  fingerprint : String
  statements : List Stmt
  declared : List NodeId
  shadowed : List NodeId

def CompilationUnit.scopeId (u : CompilationUnit) : NodeId := ⟨u.path ++ "#u"⟩

/-- A unit together with its nodes, as it is kept in the cache. -/
structure Snapshot where
  unit : CompilationUnit
  nodes : List Node

namespace Snapshot

def collect (unit : CompilationUnit) (r : Registry) : Snapshot :=
  ⟨unit, unit.declared.filterMap r.node?⟩

def isDeclaration : Node → Bool
  | .type _ | .function _ => true
  | _ => false

def conflicts (s : Snapshot) (r : Registry) : Bool :=
  s.nodes.any fun n => isDeclaration n && r.isDeclared n.id

def attach (s : Snapshot) (r : Registry) : Registry :=
  r.registerAll (s.nodes.map (Node.withCached true))

end Snapshot

end DesignMetrics
