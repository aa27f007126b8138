import DesignMetrics.Run

/-!
Reports: the metrics of the project and of every node that has any.
-/

namespace DesignMetrics

abbrev ByName (α : Type) := List (String × α)

def ByName.ofList {α : Type} (entries : List (String × α)) : ByName α :=
  (Std.TreeMap.ofList entries).toList

structure ReportNode where
  id : String
  name : String
  kind : String
  file : Option String := none
  line : Option Nat := none
  isExternal : Bool := false
  metrics : ByName MetricSet
  relations : ByName Relations := []

structure Report where
  version : String
  path : String
  files : Nat
  parsed : Nat
  restored : Nat
  failed : Nat
  project : ByName MetricSet
  nodes : List ReportNode

namespace Report

def currentVersion : String := "0.1.0"

def entry (r : RunResult) (id : NodeId) : Option (ByName MetricSet × ByName Relations) :=
  let metrics := r.results.filterMap fun a => (a.nodes[id]?).map fun m => (a.kind.name, m)
  let relations := r.results.filterMap fun a => (a.relations[id]?).map fun m => (a.kind.name, m)
  if metrics.isEmpty then none else some (.ofList metrics, .ofList relations)

def declaredNode? (r : RunResult) (node : Node) : Option ReportNode := do
  let (metrics, relations) ← entry r node.id
  return {
    id := node.id.text
    name := node.name
    kind := node.kind.word
    file := node.location?.map Location.file
    line := node.location?.map fun l => l.startLine.toNat
    metrics
    relations }

def externalNode? (r : RunResult) (id : NodeId) : Option ReportNode := do
  let (metrics, relations) ← entry r id
  return {
    id := id.text
    name := id.key
    kind := (id.kind?.map NodeKind.word).getD ""
    isExternal := true
    metrics
    relations }

def externalIds (r : RunResult) : List NodeId :=
  let ids := r.results.flatMap fun a => a.nodes.keys
  (Std.TreeSet.ofList (ids.filter fun id => !r.registry.isDeclared id)).toList

/-- First come the nodes that are declared, in the order of their registration, then those that are
only referred to, in the order of their identifiers. -/
def ofRun (path : String) (r : RunResult) : Report :=
  { version := currentVersion
    path
    files := r.parsed + r.restored + r.failed
    parsed := r.parsed
    restored := r.restored
    failed := r.failed
    project := .ofList (r.results.map fun a => (a.kind.name, a.project))
    nodes :=
      (r.registry.toList.filter Node.isUserDefined).filterMap (declaredNode? r)
        ++ (externalIds r).filterMap (externalNode? r) }

end Report

end DesignMetrics
