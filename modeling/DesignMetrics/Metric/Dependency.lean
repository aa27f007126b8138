import DesignMetrics.Metric.Basic
import DesignMetrics.Metric.Cycle
import DesignMetrics.Metric.Reference

/-!
Dependencies between namespaces, and how abstract and how stable these are.
-/

namespace DesignMetrics

structure NamespaceRecord where
  name : String
  concreteTypes : Nat := 0
  abstractTypes : Nat := 0
  efferent : Std.TreeSet NodeId := ∅
  afferent : Std.TreeSet NodeId := ∅

namespace NamespaceRecord

def totalTypes (r : NamespaceRecord) : Nat := r.concreteTypes + r.abstractTypes

def part (amount total : Nat) : Float := if total = 0 then 0 else count amount / count total

/-- The part of a namespace's types that is abstract. -/
def abstractness (r : NamespaceRecord) : Float := part r.abstractTypes r.totalTypes

/-- The part of a namespace's dependencies that goes out. -/
def instability (r : NamespaceRecord) : Float :=
  part r.efferent.size (r.efferent.size + r.afferent.size)

/-- The distance of a namespace is how far its abstractness and its instability are from adding up
to one. -/
def metrics (r : NamespaceRecord) : MetricSet :=
  let a := r.abstractness
  let i := r.instability
  [("a", a), ("ac", count r.abstractTypes), ("ca", count r.afferent.size),
    ("cc", count r.concreteTypes), ("ce", count r.efferent.size), ("d", (a + i - 1).abs), ("i", i),
    ("tc", count r.totalTypes)]

def addType (t : TypeNode) (r : NamespaceRecord) : NamespaceRecord :=
  if t.isAbstract then { r with abstractTypes := r.abstractTypes + 1 }
  else { r with concreteTypes := r.concreteTypes + 1 }

end NamespaceRecord

/-- The namespace that references belong to, and the type that they stand in. -/
structure DependencyScope where
  space : NodeId
  owner : Option NodeId

structure Dependency where
  scopes : List DependencyScope := []
  spaces : Std.TreeMap NodeId NamespaceRecord := ∅

namespace Dependency

def touch (d : Dependency) (space : NamespaceNode) : Dependency :=
  { d with spaces := d.spaces.insertIfNew space.id { name := space.name } }

def currentType? (r : Registry) (d : Dependency) : Option TypeNode := do
  r.typeNode? (← (← d.scopes.head?).owner)

def addEdge (d : Dependency) (source target : NodeId) : Dependency :=
  let out := d.spaces.modify source fun s => { s with efferent := s.efferent.insert target }
  { d with spaces := out.modify target fun t => { t with afferent := t.afferent.insert source } }

/-- A namespace depends on every other namespace with a type that one of its classes, interfaces or
functions refers to or inherits from. -/
def dependOn (r : Registry) (d : Dependency) (t : TypeNode) : Dependency :=
  match d.scopes.head? with
  | none => d
  | some top =>
    let target := r.namespaceNamed t.refs.space
    if target.id = top.space then d else (d.touch target).addEdge top.space target.id

def addType (d : Dependency) (space : NamespaceNode) (t : TypeNode) : Dependency :=
  let d := d.touch space
  { d with spaces := d.spaces.modify space.id (NamespaceRecord.addType t) }

def openScope (d : Dependency) (space : NodeId) (owner : Option NodeId) : Dependency :=
  { d with scopes := ⟨space, owner⟩ :: d.scopes }

def prepare (r : Registry) (v : Visit) (d : Dependency) : Dependency :=
  match v with
  | .space n => d.touch n
  | .type t =>
    let space := r.namespaceNamed t.refs.space
    (d.addType space t).openScope space.id (some t.id)
  | .function f =>
    let space := r.namespaceNamed f.refs.space
    (d.touch space).openScope space.id none
  | _ => d

def targets (r : Registry) (current : Option TypeNode) : Visit → List TypeNode
  | .type t => r.superTypes t
  | v => r.references current v

def enter (r : Registry) (v : Visit) (d : Dependency) : Dependency :=
  let d := d.prepare r v
  (targets r (d.currentType? r) v).foldl (dependOn r) d

def leave (v : Visit) (d : Dependency) : Dependency :=
  match v with
  | .unit _ => { d with scopes := [] }
  | .type _ | .function _ => { d with scopes := d.scopes.tail }
  | _ => d

def observe (r : Registry) (e : Event) (d : Dependency) : Dependency :=
  match e with
  | .enter v => d.enter r v
  | .leave v => d.leave v

def successors (d : Dependency) (id : NodeId) : List NodeId :=
  ((d.spaces[id]?).map fun s => s.efferent.toList).getD []

def names (d : Dependency) (ids : List NodeId) : List String :=
  ids.filterMap fun id => (d.spaces[id]?).map NamespaceRecord.name

def cycle? (d : Dependency) (id : NodeId) : Option (List String) :=
  if d.spaces.contains id then (Cycle.find? d.successors d.spaces.size id).map d.names else none

def projectMetrics (d : Dependency) : MetricSet :=
  [("cyclic", count (d.spaces.keys.countP fun id => (d.cycle? id).isSome))]

def nodeIds (d : Dependency) : List NodeId := d.spaces.keys

def nodeMetrics (d : Dependency) (id : NodeId) : MetricSet :=
  ((d.spaces[id]?).map NamespaceRecord.metrics).getD []

def relations (d : Dependency) (id : NodeId) : Relations :=
  match d.spaces[id]? with
  | none => []
  | some s =>
    [("afferent", d.names s.afferent.toList)]
      ++ ((d.cycle? id).map fun path => ("cycle", path)).toList
      ++ [("efferent", d.names s.efferent.toList)]

end Dependency

end DesignMetrics
