import DesignMetrics.NodeId

/-!
Metrics: named numbers of a project or of one of its nodes, and named relations between nodes. Both
are listed in the order of their names.
-/

namespace DesignMetrics

abbrev MetricSet := List (String × Float)

abbrev Relations := List (String × List String)

def count (n : Nat) : Float := n.toUInt64.toFloat

/-- The analyzers that there are. -/
inductive AnalyzerKind where
  | coupling
  | nodeCount
  | complexity
  | dependency
  deriving DecidableEq, Repr

namespace AnalyzerKind

def all : List AnalyzerKind := [coupling, nodeCount, complexity, dependency]

def name : AnalyzerKind → String
  | coupling => "coupling"
  | nodeCount => "node-count"
  | complexity => "cyclomatic-complexity"
  | dependency => "dependency"

def ofName? (s : String) : Option AnalyzerKind := all.find? fun k => k.name == s

end AnalyzerKind

end DesignMetrics
