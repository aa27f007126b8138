import DesignMetrics.Proofs.Metric.Reordering
import DesignMetrics.Proofs.Metric.Uncached
import DesignMetrics.Proofs.Traversal.Unshadowed

/-! Analyzers and the order of units.
A walk through units in another order has the same events in another order, and so each analyzer has the
same to tell.
-/

namespace DesignMetrics

/-- Whether two analyzers have the same to tell. -/
structure Analyzer.Alike (a b : Analyzer NoCache) : Prop where
  kind : a.kind = b.kind
  project : a.projectMetrics = b.projectMetrics
  known : ∀ id, id ∈ a.nodeIds ↔ id ∈ b.nodeIds
  metrics : ∀ id, a.nodeMetrics id = b.nodeMetrics id
  relations : ∀ id, a.relations id = b.relations id

theorem Analyzer.observeAll_complexity {κ : Type} [CacheStore κ] {r : Registry} (events : List Event)
    (c : Complexity κ) : Traversal.observeAll r events (Analyzer.complexity c)
      = .ok (.complexity (events.foldl (fun c e => c.observe e) c)) := by
  induction events generalizing c with
  | nil => rfl
  | cons e events ih => exact ih (c.observe e)

/-- An analyzer that has counted all nodes. -/
theorem Analyzer.eq_nodeCount_of_observeAll {κ : Type} [CacheStore κ] {r : Registry}
    {events : List Event} {c : NodeCount} {a : Analyzer κ}
    (done : Traversal.observeAll r events (Analyzer.nodeCount c) = .ok a)
    : ∃ c', events.foldlM (fun (c : NodeCount) e => c.observe r e) c = .ok c' ∧ a = .nodeCount c' := by
  rw [observeAll_nodeCount] at done
  cases counted : events.foldlM (fun (c : NodeCount) e => c.observe r e) c with
  | error fault =>
    rw [counted] at done
    cases done
  | ok c' =>
    rw [counted] at done
    exact ⟨c', rfl, (Except.ok.inj done).symm⟩

/-- What is known of a map with the same look-ups. -/
theorem mem_keys_congr {β : Type} {m m' : Std.TreeMap NodeId β}
    (same : ∀ id : NodeId, m[id]? = m'[id]?) (id : NodeId) : id ∈ m.keys ↔ id ∈ m'.keys := by
  rw [Std.TreeMap.mem_keys, Std.TreeMap.mem_keys, Std.TreeMap.mem_iff_isSome_getElem?,
    Std.TreeMap.mem_iff_isSome_getElem?, same]

section

variable {files : List SourceFile} {r : Registry} {units units' : List CompilationUnit} {o : Outline}
variable (h : Bound files [] ∅ (units, r) o) (owned : o.Owned) (same : units.Perm units')

include h owned same

/-- The units in another order are walked through without entering a declaration twice. -/
theorem Bound.entered_perm
    : (Walk.units r units).events.Perm (Walk.units r units').events
      ∧ ((entered (Walk.units r units').events).map Node.id).Nodup := by
  obtain ⟨fine, all⟩ := h.entered_of_owned owned
  have events := Walk.units_events_perm same fine
  have once : ((entered (Walk.units r units).events).map Node.id).Nodup := all ▸ r.nodup_declarations
  exact ⟨events, ((events.filterMap Event.entered?).map Node.id).nodup_iff.mp once⟩

theorem Bound.coupling_perm
    : Analyzer.Alike (.coupling (Coupling.after r (Walk.units r units).events))
        (.coupling (Coupling.after r (Walk.units r units').events)) := by
  have logs := Walk.log_perm same (h.entered_of_owned owned).1
  have events := (h.entered_perm owned same).1
  refine ⟨rfl, Coupling.projectMetrics_perm logs, fun id => ?_, Coupling.nodeMetrics_perm events logs,
    fun _ => rfl⟩
  simpa [Analyzer.nodeIds, Coupling.nodeIds] using Coupling.mem_records_perm events logs id

theorem Bound.nodeCount_perm {c c' : NodeCount}
    (left : (Walk.units r units).events.foldlM (fun c e => NodeCount.observe r e c) {} = .ok c)
    (right : (Walk.units r units').events.foldlM (fun c e => NodeCount.observe r e c) {} = .ok c')
    : Analyzer.Alike (.nodeCount c) (.nodeCount c') := by
  have events := (h.entered_perm owned same).1
  obtain ⟨census, number⟩ := h.laid.census left (h.entered_perm owned .rfl).2
  obtain ⟨census', number'⟩ := h.laid.census right (h.entered_perm owned same).2
  have nodes := events.filterMap Event.entered?
  have mem (x : NodeId) : x ∈ c.records ↔ x ∈ c'.records := by
    rw [NodeCount.mem_foldlM_observe left, NodeCount.mem_foldlM_observe right]
    simp only [events.mem_iff]
  have records := census.records_perm census' nodes mem
  exact ⟨rfl, census.projectMetrics_perm census' nodes mem number number', mem_keys_congr records,
    fun id => by simp only [Analyzer.nodeMetrics, NodeCount.nodeMetrics, records], fun _ => rfl⟩

theorem Bound.complexity_perm (apart : r.Apart)
    : Analyzer.Alike
        (.complexity ((Walk.units r units).events.foldl (fun c e => c.observe e) { cache := ⟨⟩ }))
        (.complexity ((Walk.units r units').events.foldl (fun c e => c.observe e) { cache := ⟨⟩ })) := by
  obtain ⟨total, records⟩ := Walk.complexities_perm apart same (h.entered_of_owned owned).1
  exact ⟨rfl, congrArg ComplexityRecord.metrics total, mem_keys_congr records,
    fun id => by simp only [Analyzer.nodeMetrics, Complexity.nodeMetrics, records], fun _ => rfl⟩

theorem Bound.dependency_perm (named : ∀ n, .space n ∈ r.toList → n.Named)
    : Analyzer.Alike (.dependency (Dependency.after r (Walk.units r units).events))
        (.dependency (Dependency.after r (Walk.units r units').events)) := by
  have linked (us : List CompilationUnit) : (Dependency.after r (Walk.units r us).events).Linked :=
    Dependency.Linked.start.foldl_observe named fun n member =>
      Walk.visits_spaces named (Registry.named_namespaceNamed named) _ us _ member n rfl
  have depends (us : List CompilationUnit) (a b : NodeId)
      : (Dependency.after r (Walk.units r us).events).Depends a b
        ↔ ((Walk.units r us).events.foldl ScopeLog.step ⟨[], 0⟩).Depends r a b := by
    obtain ⟨_, chained, _⟩ := Walk.nests_unitsTo r (r.size + 1) us
    exact ((Dependency.Follows.start r).foldl_observe chained .nil (by simp)
      (Walk.visits_registered r _ us)).depends a b
  have logs := Walk.log_perm same (h.entered_of_owned owned).1
  have alike := Dependency.alike_of_perm (h.entered_perm owned same).1 (linked units) (linked units')
    fun a b => by rw [depends, depends, logs]
  refine ⟨rfl, alike.projectMetrics_eq, fun id => ?_, alike.nodeMetrics_eq, alike.relations_eq⟩
  simp only [Analyzer.nodeIds, Dependency.nodeIds, alike.keys_eq]

/-- Every kind of analyzer that takes all events in both orders has the same to tell. -/
theorem Bound.analyzers_perm (apart : r.Apart) (named : ∀ n, .space n ∈ r.toList → n.Named)
    (kind : AnalyzerKind) {a b : Analyzer NoCache}
    (left : Traversal.observeAll r (Walk.units r units).events (Analyzer.start ⟨⟩ kind) = .ok a)
    (right : Traversal.observeAll r (Walk.units r units').events (Analyzer.start ⟨⟩ kind) = .ok b)
    : a.kind = kind ∧ a.Alike b := by
  cases kind with
  | coupling =>
    rw [Analyzer.start, Analyzer.observeAll_coupling] at left right
    obtain rfl := Except.ok.inj left
    obtain rfl := Except.ok.inj right
    exact ⟨rfl, h.coupling_perm owned same⟩
  | nodeCount =>
    obtain ⟨c, counted, rfl⟩ := Analyzer.eq_nodeCount_of_observeAll left
    obtain ⟨c', counted', rfl⟩ := Analyzer.eq_nodeCount_of_observeAll right
    exact ⟨rfl, h.nodeCount_perm owned same counted counted'⟩
  | complexity =>
    rw [Analyzer.start, Analyzer.observeAll_complexity] at left right
    obtain rfl := Except.ok.inj left
    obtain rfl := Except.ok.inj right
    exact ⟨rfl, h.complexity_perm owned same apart⟩
  | dependency =>
    rw [Analyzer.start, Analyzer.observeAll_dependency] at left right
    obtain rfl := Except.ok.inj left
    obtain rfl := Except.ok.inj right
    exact ⟨rfl, h.dependency_perm owned same named⟩

end

end DesignMetrics
