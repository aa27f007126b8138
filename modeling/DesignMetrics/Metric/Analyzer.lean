import DesignMetrics.Metric.Complexity
import DesignMetrics.Metric.Coupling
import DesignMetrics.Metric.Dependency
import DesignMetrics.Metric.NodeCount
import DesignMetrics.Traversal.Observer

/-!
The analyzers as observers of a walk, and what they have to tell after it.
-/

namespace DesignMetrics

/-- An analyzer in its state; the one that uses a cache holds it. -/
inductive Analyzer (κ : Type) where
  | coupling (state : Coupling)
  | nodeCount (state : NodeCount)
  | complexity (state : Complexity κ)
  | dependency (state : Dependency)

namespace Analyzer

variable {κ : Type} [CacheStore κ]

def start (cache : κ) : AnalyzerKind → Analyzer κ
  | .coupling => .coupling {}
  | .nodeCount => .nodeCount {}
  | .complexity => .complexity { cache }
  | .dependency => .dependency {}

def kind : Analyzer κ → AnalyzerKind
  | coupling _ => .coupling
  | nodeCount _ => .nodeCount
  | complexity _ => .complexity
  | dependency _ => .dependency

def observe (r : Registry) (e : Event) : Analyzer κ → Except NodeCountFault (Analyzer κ)
  | coupling s => .ok (.coupling (s.observe r e))
  | nodeCount s => (s.observe r e).map .nodeCount
  | complexity s => .ok (.complexity (s.observe e))
  | dependency s => .ok (.dependency (s.observe r e))

instance : Observer (Analyzer κ) NodeCountFault where
  name a := a.kind.name
  observe := observe

def cache? : Analyzer κ → Option κ
  | complexity s => some s.cache
  | _ => none

def projectMetrics : Analyzer κ → MetricSet
  | coupling s => s.projectMetrics
  | nodeCount s => s.projectMetrics
  | complexity s => s.projectMetrics
  | dependency s => s.projectMetrics

def nodeIds : Analyzer κ → List NodeId
  | coupling s => s.nodeIds
  | nodeCount s => s.nodeIds
  | complexity s => s.nodeIds
  | dependency s => s.nodeIds

def nodeMetrics (id : NodeId) : Analyzer κ → MetricSet
  | coupling s => s.nodeMetrics id
  | nodeCount s => s.nodeMetrics id
  | complexity s => s.nodeMetrics id
  | dependency s => s.nodeMetrics id

def relations (id : NodeId) : Analyzer κ → Relations
  | dependency s => s.relations id
  | _ => []

def run (r : Registry) (units : List CompilationUnit) (kinds : List AnalyzerKind) (cache : κ)
    : Outcome (Analyzer κ) NodeCountFault × κ :=
  let outcome := Traversal.follow r (Walk.units r units) (kinds.map (start cache))
  (outcome, (outcome.observers.findSome? cache?).getD cache)

end Analyzer

end DesignMetrics
