import DesignMetrics.Proofs.Metric.Conservation
import DesignMetrics.Proofs.Metric.SpellingInvariance
import DesignMetrics.Proofs.Traversal.Reordering

/-! Analyzers do not see the order of units.
After the events of units in another order they have the same to tell, because each of them counts or
collects what is in its log.
-/

namespace DesignMetrics

/-- The log of a walk does not depend on the order of the units. -/
theorem Walk.log_perm {r : Registry} {us us' : List CompilationUnit} (same : us.Perm us')
    (fine : (units r us).fault = none)
    : (units r us).events.foldl ScopeLog.step ⟨[], 0⟩
      = (units r us').events.foldl ScopeLog.step ⟨[], 0⟩ := by
  have nodes : (entered (units r us).events).Perm (entered (units r us').events) :=
    (units_events_perm same fine).filterMap _
  have logged : loggedNodes r (entered (units r us).events)
      = loggedNodes r (entered (units r us').events) :=
    Multiset.coe_eq_coe.mpr ((nodes.filterMap _).map _)
  have owners : ((us.map fun u => (Owner.unit u).logged r : List (ScopeCode × Bool))
      : Multiset (ScopeCode × Bool)) = (us'.map fun u => (Owner.unit u).logged r
      : List (ScopeCode × Bool)) :=
    Multiset.coe_eq_coe.mpr (same.map _)
  unfold units at logged ⊢
  rw [log_unitsTo fine, log_unitsTo (units_fault_perm same fine), owners, logged]

namespace Coupling

variable {r : Registry} {events events' : List Event}

section

variable (same : events.Perm events')
variable (logs : events.foldl ScopeLog.step ⟨[], 0⟩ = events'.foldl ScopeLog.step ⟨[], 0⟩)

include logs

theorem afferent_perm (id scope : NodeId)
    : scope ∈ ((after r events).record id).afferent ↔ scope ∈ ((after r events').record id).afferent := by
  rw [(holds_after r events).afferent, (holds_after r events').afferent, logs]

theorem efferent_perm (id target : NodeId)
    : target ∈ ((after r events).record id).efferent
      ↔ target ∈ ((after r events').record id).efferent := by
  rw [(holds_after r events).efferent, (holds_after r events').efferent, logs]

theorem projectMetrics_perm
    : (after r events).projectMetrics = (after r events').projectMetrics := by
  have calls : (after r events).calls = (after r events').calls := by
    have left := ((Reflects.start r).foldl_observe events).calls
    have right := ((Reflects.start r).foldl_observe events').calls
    rw [← logs] at right
    exact left.trans right.symm
  have edges : (after r events).edges = (after r events').edges := by
    ext ⟨id, scope⟩
    rw [mem_edges, mem_edges, afferent_perm logs]
  rw [projectMetrics, projectMetrics, calls, ← card_edges, ← card_edges, edges]

include same

theorem mem_records_perm (id : NodeId)
    : id ∈ (after r events).records ↔ id ∈ (after r events').records := by
  have left : id ∈ (after r events).records ↔ _ := Records.start.foldl_observe events id
  have right : id ∈ (after r events').records ↔ _ := Records.start.foldl_observe events' id
  have ends : (after r events).HasEdge id ↔ (after r events').HasEdge id := by
    simp only [HasEdge, afferent_perm logs, efferent_perm logs]
  rw [left, right]
  simp only [false_or, same.mem_iff]
  exact or_congr_right ends

theorem nodeMetrics_perm (id : NodeId)
    : (after r events).nodeMetrics id = (after r events').nodeMetrics id := by
  have afferent := (Std.TreeSet.Equiv.of_forall_mem_iff (afferent_perm (r := r) logs id)).size_eq
  have efferent := (Std.TreeSet.Equiv.of_forall_mem_iff (efferent_perm (r := r) logs id)).size_eq
  rw [nodeMetrics_eq, nodeMetrics_eq, afferent, efferent]
  simp only [mem_records_perm same logs]

end

end Coupling

/-- What a map has under a key is known from whether it has something and from what it has, or else a
default.
-/
theorem getElem?_eq_of_getD {β : Type} {m m' : Std.TreeMap NodeId β} {x : NodeId}
    (mem : x ∈ m ↔ x ∈ m') {default : β} (value : (m[x]?).getD default = (m'[x]?).getD default)
    : m[x]? = m'[x]? := by
  by_cases known : x ∈ m
  · have known' := mem.mp known
    rw [Std.TreeMap.getElem?_eq_some_getElem known] at value ⊢
    rw [Std.TreeMap.getElem?_eq_some_getElem known'] at value ⊢
    exact congrArg some value
  · rw [Std.TreeMap.getElem?_eq_none known, Std.TreeMap.getElem?_eq_none (mem.not.mp known)]

namespace NodeCount.Census

variable {r : Registry} {nodes nodes' : List Node} {c c' : NodeCount}
variable (h : c.Census r nodes) (h' : c'.Census r nodes') (same : nodes.Perm nodes')
variable (mem : ∀ x, x ∈ c.records ↔ x ∈ c'.records)

include h h' same mem

/-- The records are determined by what has been entered. -/
theorem records_perm (x : NodeId) : c.records[x]? = c'.records[x]? := by
  by_cases kind : x.kind? = some .space
  · apply getElem?_eq_of_getD (mem x)
    rw [h.space kind, h'.space kind]
    simp only [spaceRecord, Registry.countIn, same.countP_eq]
  · apply getElem?_eq_of_getD (mem x)
    rw [h.type kind, h'.type kind]
    simp only [typeRecord, same.countP_eq]

theorem projectMetrics_perm (number : c.NumbersSpaces) (number' : c'.NumbersSpaces)
    : c.projectMetrics = c'.projectMetrics := by
  have spaces : c.spaces = c'.spaces := by
    ext x
    rw [mem_spaces, mem_spaces, mem]
  have number : c.namespaces = c.spaces.card := number
  have number' : c'.namespaces = c'.spaces.card := number'
  rw [projectMetrics, projectMetrics, number, number', spaces]
  simp only [h.totals.classes, h.totals.abstractClasses, h.totals.interfaces, h.totals.methods,
    h.totals.functions, h'.totals.classes, h'.totals.abstractClasses, h'.totals.interfaces,
    h'.totals.methods, h'.totals.functions, same.countP_eq]

end NodeCount.Census

namespace Dependency

variable {r : Registry} {d : Dependency}

def touched? (r : Registry) : Visit → Option NodeId
  | .space n => some n.id
  | v => (DependencyScope.ofVisit? r v).map DependencyScope.space

theorem mem_prepare (v : Visit) (x : NodeId)
    : x ∈ (d.prepare r v).spaces ↔ touched? r v = some x ∨ x ∈ d.spaces := by
  have sym (a : NodeId) : x = a ↔ a = x := eq_comm
  cases v with
  | space n => simp [prepare, touched?, mem_touch, sym]
  | type t =>
    have space : r.spaceOf (.type t) = (r.namespaceNamed t.refs.space).id := rfl
    simp [prepare, openScope, touched?, DependencyScope.ofVisit?, mem_addType, space, sym]
  | function f =>
    have space : r.spaceOf (.function f) = (r.namespaceNamed f.refs.space).id := rfl
    simp [prepare, openScope, touched?, DependencyScope.ofVisit?, mem_touch, space, sym]
  | _ => simp [prepare, touched?, DependencyScope.ofVisit?]

/-- Whether the records are those of namespaces that were touched or that others depend on. -/
structure Spans (touched : NodeId → Prop) (d : Dependency) : Prop where
  opened : d.Opened
  mem (x : NodeId) : x ∈ d.spaces ↔ touched x ∨ ∃ a, d.Depends a x

namespace Spans

variable {touched : NodeId → Prop}

theorem start : Spans (fun _ => False) {} := by
  constructor <;> simp [Opened, Depends]

variable (h : Spans touched d)

include h

theorem prepare (v : Visit)
    : Spans (fun x => touched x ∨ touched? r v = some x) (d.prepare r v) where
  opened := h.opened.prepare v
  mem x := by
    simp only [mem_prepare, depends_prepare, h.mem]
    tauto

/-- What the innermost scope comes to depend on has a record. -/
theorem dependOn (t : TypeNode) : Spans touched (d.dependOn r t) := by
  obtain ⟨scopes, kept⟩ := dependOn_frame (r := r) (d := d) t
  refine ⟨h.opened.mono (scopes ▸ List.Subset.refl _) kept, fun x => ?_⟩
  cases opened : d.scopes with
  | nil =>
    have same : d.dependOn r t = d := by simp [Dependency.dependOn, opened]
    rw [same, h.mem]
  | cons top rest =>
    have known := h.opened top (by simp [opened])
    have space : r.spaceOf (.type t) = (r.namespaceNamed t.refs.space).id := rfl
    have mem : x ∈ (d.dependOn r t).spaces
        ↔ x ∈ d.spaces ∨ r.spaceOf (.type t) = x ∧ x ≠ top.space := by
      simp only [Dependency.dependOn, opened, List.head?_cons, space]
      split
      · rename_i own
        simp only [own]
        tauto
      · rename_i other
        simp only [mem_addEdge, mem_touch]
        grind
    simp only [mem, depends_dependOn opened known, h.mem, exists_or, exists_eq_left, or_assoc]

theorem foldl_dependOn (types : List TypeNode)
    : Spans touched (types.foldl (Dependency.dependOn r) d) := by
  induction types generalizing d with
  | nil => exact h
  | cons t types ih => exact ih (h.dependOn t)

theorem observe (e : Event)
    : Spans (fun x => touched x ∨ ∃ v, e = .enter v ∧ touched? r v = some x) (d.observe r e) := by
  cases e with
  | enter v =>
    have step : Spans _ (d.observe r (.enter v)) := (h.prepare v).foldl_dependOn _
    simpa using step
  | leave v =>
    have closed {scopes : List DependencyScope} (fewer : scopes ⊆ d.scopes)
        : Spans touched { d with scopes } := ⟨h.opened.mono fewer fun _ => id, h.mem⟩
    simp only [reduceCtorEq, false_and, exists_false, or_false]
    cases v with
    | unit => exact closed (List.nil_subset _)
    | type | function => exact closed (List.tail_subset _)
    | _ => exact h

/-- The namespaces with a record after any events. -/
theorem foldl_observe (events : List Event)
    : Spans (fun x => touched x ∨ ∃ v, .enter v ∈ events ∧ touched? r v = some x)
        (events.foldl (fun d e => d.observe r e) d) := by
  induction events generalizing d touched with
  | nil => simpa using h
  | cons e events ih =>
    have later := ih (h.observe (r := r) e)
    refine ⟨later.opened, fun x => (later.mem x).trans (or_congr_left ?_)⟩
    simp only [List.mem_cons, or_and_right, exists_or, or_assoc, eq_comm]

end Spans

end Dependency

/-- Whether two records tell the same, as sets are told by their members. -/
structure NamespaceRecord.Alike (s s' : NamespaceRecord) : Prop where
  name : s.name = s'.name
  concreteTypes : s.concreteTypes = s'.concreteTypes
  abstractTypes : s.abstractTypes = s'.abstractTypes
  efferent : s.efferent.toList = s'.efferent.toList
  afferent : s.afferent.toList = s'.afferent.toList

theorem NamespaceRecord.Alike.metrics_eq {s s' : NamespaceRecord} (h : s.Alike s')
    : s.metrics = s'.metrics := by
  have efferent : s.efferent.size = s'.efferent.size := by
    rw [← Std.TreeSet.length_toList, h.efferent, Std.TreeSet.length_toList]
  have afferent : s.afferent.size = s'.afferent.size := by
    rw [← Std.TreeSet.length_toList, h.afferent, Std.TreeSet.length_toList]
  simp only [metrics, abstractness, instability, totalTypes, h.concreteTypes, h.abstractTypes, efferent,
    afferent]

namespace Dependency

def Alike (d d' : Dependency) : Prop :=
  ∀ id : NodeId, Option.Rel NamespaceRecord.Alike d.spaces[id]? d'.spaces[id]?

namespace Alike

variable {d d' : Dependency} (h : d.Alike d')

include h

theorem map_eq {α : Type} {f : NamespaceRecord → α} (read : ∀ s s', s.Alike s' → f s = f s')
    (id : NodeId) : (d.spaces[id]?).map f = (d'.spaces[id]?).map f := by
  have related := h id
  generalize d.spaces[id]? = s, d'.spaces[id]? = s' at related ⊢
  cases related with
  | none => rfl
  | some same => exact congrArg some (read _ _ same)

theorem keys_eq : d.spaces.keys = d'.spaces.keys := by
  have known : (d.spaces.map fun _ _ => ()).Equiv (d'.spaces.map fun _ _ => ()) :=
    .of_forall_constGet?_eq fun id => by
      simpa using h.map_eq (f := fun _ => ()) (fun _ _ _ => rfl) id
  simpa only [Std.TreeMap.keys_map] using known.keys_eq

theorem names_eq : d.names = d'.names := by
  have name := h.map_eq (f := NamespaceRecord.name) fun _ _ same => same.name
  funext ids
  simp only [names, name]

theorem cycle?_eq : d.cycle? = d'.cycle? := by
  have efferent := h.map_eq (f := fun s => s.efferent.toList) fun _ _ same => same.efferent
  have successors : d.successors = d'.successors := by
    funext id
    simp only [Dependency.successors, efferent]
  have contains (id : NodeId) : d.spaces.contains id = d'.spaces.contains id := by
    rw [← Std.TreeMap.contains_keys, h.keys_eq, Std.TreeMap.contains_keys]
  have size : d.spaces.size = d'.spaces.size := by
    rw [← Std.TreeMap.length_keys, h.keys_eq, Std.TreeMap.length_keys]
  funext id
  simp only [cycle?, successors, contains, size, h.names_eq]

theorem projectMetrics_eq : d.projectMetrics = d'.projectMetrics := by
  rw [projectMetrics, projectMetrics, h.keys_eq, h.cycle?_eq]

theorem nodeMetrics_eq (id : NodeId) : d.nodeMetrics id = d'.nodeMetrics id := by
  rw [nodeMetrics, nodeMetrics, h.map_eq fun _ _ same => same.metrics_eq]

theorem relations_eq (id : NodeId) : d.relations id = d'.relations id := by
  have related := h id
  unfold relations
  generalize d.spaces[id]? = s, d'.spaces[id]? = s' at related ⊢
  cases related with
  | none => rfl
  | some same => simp only [h.names_eq, h.cycle?_eq, same.afferent, same.efferent]

end Alike

namespace Linked

variable {d d' : Dependency} {id : NodeId} {s : NamespaceRecord}

theorem mem_efferent (found : d.spaces[id]? = some s) (b : NodeId)
    : b ∈ s.efferent ↔ d.Depends id b := by
  simp [Depends, found]

theorem mem_afferent (h : Linked d) (found : d.spaces[id]? = some s) (b : NodeId)
    : b ∈ s.afferent ↔ d.Depends b id := by
  constructor
  · intro member
    obtain ⟨t, source⟩ := exists_record ((h.known id s found).2 b member)
    exact ⟨t, source, (h.both b t id s source found).mpr member⟩
  · rintro ⟨t, source, member⟩
    exact (h.both b t id s source found).mp member

/-- Linked records are determined by the namespaces that have one, their dependencies and their
types.
-/
theorem alike (h : Linked d) (h' : Linked d') (mem : ∀ x, x ∈ d.spaces ↔ x ∈ d'.spaces)
    (depends : ∀ a b, d.Depends a b ↔ d'.Depends a b) (types : ∀ a, d.types a = d'.types a)
    : d.Alike d' := by
  intro id
  by_cases known : id ∈ d.spaces
  · obtain ⟨s, found⟩ := exists_record known
    obtain ⟨s', found'⟩ := exists_record ((mem id).mp known)
    have counted := types id
    simp only [Dependency.types, found, found', Option.map_some, Option.getD_some, Prod.mk.injEq]
      at counted
    rw [found, found']
    refine .some ⟨?_, counted.1, counted.2, ?_, ?_⟩
    · rw [h.name_eq_key found, h'.name_eq_key found']
    · refine (Std.TreeSet.Equiv.of_forall_mem_iff fun b => ?_).toList_eq
      rw [mem_efferent found, mem_efferent found', depends]
    · refine (Std.TreeSet.Equiv.of_forall_mem_iff fun b => ?_).toList_eq
      rw [h.mem_afferent found, h'.mem_afferent found', depends]
  · have unknown := (mem id).not.mp known
    rw [Std.TreeMap.getElem?_eq_none known, Std.TreeMap.getElem?_eq_none unknown]
    exact .none

end Linked

def after (r : Registry) (events : List Event) : Dependency :=
  events.foldl (fun d e => d.observe r e) {}

/-- Events in another order lead to the same records, if the dependencies are the same. -/
theorem alike_of_perm {r : Registry} {events events' : List Event} (same : events.Perm events')
    (linked : Linked (after r events)) (linked' : Linked (after r events'))
    (depends : ∀ a b, (after r events).Depends a b ↔ (after r events').Depends a b)
    : Alike (after r events) (after r events') := by
  have nodes : (entered events).Perm (entered events') := same.filterMap _
  refine linked.alike linked' (fun x => ?_) depends fun a => ?_
  · have left := (Spans.start.foldl_observe (r := r) events).mem x
    have right := (Spans.start.foldl_observe (r := r) events').mem x
    apply left.trans (Iff.trans _ right.symm)
    exact or_congr (by simp only [same.mem_iff]) (exists_congr fun a => depends a x)
  · rw [after, after, types_foldl_observe, types_foldl_observe]
    simp only [addTypes, Registry.countIn, nodes.countP_eq]

end Dependency

end DesignMetrics
