import DesignMetrics.Config.Encoding
import DesignMetrics.Main
import DesignMetrics.Proofs.Traversal.Coverage
import DesignMetrics.Proofs.Traversal.SharedPass
import DesignMetrics.Proofs.Run.CorruptEntries
import DesignMetrics.Proofs.Traversal.Bracketing
import DesignMetrics.Proofs.Run.SelfContained
import DesignMetrics.Proofs.Cache.Mirroring
import DesignMetrics.Proofs.Metric.Cycles
import DesignMetrics.Proofs.Binding.Restoring
import DesignMetrics.Proofs.Binding.Conflicts
import DesignMetrics.Proofs.Metric.DecisionPoints
import DesignMetrics.Proofs.Registry.History
import DesignMetrics.Proofs.Registry.Subtyping
import DesignMetrics.Proofs.Report.Completeness
import DesignMetrics.Proofs.Report.Ratios
import DesignMetrics.Proofs.Lowering.Comments
import DesignMetrics.Proofs.Lowering.Namespaces
import DesignMetrics.Proofs.Traversal.Places
import DesignMetrics.Proofs.Lowering.Branches
import DesignMetrics.Proofs.Names.Resolution
import DesignMetrics.Proofs.Lowering.AlternativeForms
import DesignMetrics.Proofs.Metric.ClassOperands
import DesignMetrics.Proofs.Files.Discovery
import DesignMetrics.Proofs.Metric.Provenance
import DesignMetrics.Proofs.Traversal.MemberLists
import DesignMetrics.Proofs.Registry.Identifiers
