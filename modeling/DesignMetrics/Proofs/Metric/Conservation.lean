import Mathlib.Algebra.BigOperators.Group.Finset.Piecewise
import DesignMetrics.Proofs.Metric.Census
import DesignMetrics.Proofs.Metric.Couplings

/-! Conservation of counts.
In plain files whose types have names, each declaration is entered once, so that all counters balance:
every total is the sum over the namespaces, methods are also summed up by types, and both analyses find
as many types in a namespace.
-/

namespace DesignMetrics

/-- A sum over the records of a map is one over its keys. -/
theorem sum_records {β : Type} (m : Std.TreeMap NodeId β) (p : NodeId → Bool) {g : β → Nat}
    {f : NodeId → Nat} (same : ∀ k s, m[k]? = some s → p k → g s = f k)
    : ((m.toList.filter fun s => p s.1).map fun s => g s.2).sum
      = ∑ k ∈ (m.keys.filter p).toFinset, f k := by
  rw [List.sum_toFinset _ (Std.TreeMap.nodup_keys.filter _), ← Std.TreeMap.map_fst_toList_eq_keys,
    List.filter_map, List.map_map]
  congr 1
  refine List.map_congr_left fun s member => ?_
  obtain ⟨there, wanted⟩ := List.mem_filter.mp member
  exact same s.1 s.2 (Std.TreeMap.mem_toList_iff_getElem?_eq_some.mp there) wanted

variable {nodes : List Node} {r : Registry} {p : Node → Bool} {κ : Type}

/-- Counting by keys counts every node that has one. -/
theorem sum_countP (key : Node → Option NodeId) {keys : Finset NodeId}
    (all : ∀ n ∈ nodes, ∀ a, key n = some a → a ∈ keys)
    : ∑ a ∈ keys, nodes.countP (fun n => key n = some a) = nodes.countP fun n => (key n).isSome := by
  induction nodes with
  | nil => simp
  | cons n nodes ih =>
    have one : ∑ a ∈ keys, (if key n = some a then 1 else 0)
        = if (key n).isSome then 1 else 0 := by
      cases found : key n with
      | none => simp
      | some a => simp [all n (by simp) a found]
    simp only [List.countP_cons, Finset.sum_add_distrib, decide_eq_true_eq]
    rw [one, ih fun m member => all m (List.mem_cons_of_mem _ member)]

/-- Counting by namespaces counts every node. -/
theorem Registry.sum_countIn {keys : Finset NodeId} (all : ∀ n ∈ nodes, p n → r.spaceOf n ∈ keys)
    : ∑ a ∈ keys, r.countIn nodes a p = nodes.countP p := by
  let key (n : Node) : Option NodeId := if p n then some (r.spaceOf n) else none
  have keyed (n : Node) (a : NodeId) : key n = some a ↔ p n ∧ r.spaceOf n = a := by
    simp [key]
  have counted (a : NodeId) : r.countIn nodes a p = nodes.countP fun n => key n = some a := by
    simp [Registry.countIn, keyed]
  simp only [counted]
  refine (sum_countP key fun n member a same => ?_).trans ?_
  · obtain ⟨wanted, rfl⟩ := (keyed n a).mp same
    exact all n member wanted
  · congr 1
    funext n
    cases wanted : p n <;> simp [key, wanted]

/-- Two counts make up for two others if they do for each node. -/
theorem countP_add_countP {q p' q' : Node → Bool} (nodes : List Node)
    (same : ∀ n, (p n).toNat + (q n).toNat = (p' n).toNat + (q' n).toNat)
    : nodes.countP p + nodes.countP q = nodes.countP p' + nodes.countP q' := by
  induction nodes with
  | nil => rfl
  | cons n nodes ih =>
    have one (p : Node → Bool) : (n :: nodes).countP p = nodes.countP p + (p n).toNat := by
      rw [List.countP_cons]
      cases p n <;> rfl
    simp only [one]
    have here := same n
    omega

def NodeCountRecord.types (s : NodeCountRecord) : Nat := s.classes.getD 0 + s.interfaces.getD 0

namespace NodeCount

def sumSpaces (c : NodeCount) (amount : NodeCountRecord → Nat) : Nat :=
  ((c.records.toList.filter fun s => s.1.kind? = some .space).map fun s => amount s.2).sum

def sumTypes (c : NodeCount) (amount : NodeCountRecord → Nat) : Nat :=
  ((c.records.toList.filter fun s => s.1.kind? ≠ some .space).map fun s => amount s.2).sum

section

variable {c c' : NodeCount} {events : List Event}

/-- What counts is counted in a namespace that gets a record. -/
theorem spaceOf_mem (run : events.foldlM (fun c e => c.observe r e) c = .ok c') {n : Node}
    (member : n ∈ entered events) (counts : n.counts) : r.spaceOf n ∈ c'.records := by
  obtain ⟨e, taken, enters⟩ := List.mem_filterMap.mp member
  refine (mem_foldlM_observe run).mpr (.inr ⟨e, taken, ?_⟩)
  unfold Event.entered? at enters
  split at enters <;> simp at enters <;> subst enters <;>
    simp_all [recorded, Node.counts, Registry.spaceOf, Node.spaceName]

/-- A method that is counted has a declaring type with a record. -/
theorem declaring_mem (run : events.foldlM (fun c e => c.observe r e) c = .ok c') {m : MethodNode}
    (member : .method m ∈ entered events)
    : ∃ d, r.type? m.refs.declaringType = some d ∧ d.id ∈ c'.records := by
  induction events generalizing c with
  | nil => simp at member
  | cons e events ih =>
    obtain ⟨next, step, rest⟩ := foldlM_cons_ok run
    rw [entered_cons, List.mem_append, Option.mem_toList] at member
    rcases member with here | later
    · obtain ⟨d, found, known⟩ := observe_ok_iff.mp ⟨next, step⟩ m here
      exact ⟨d, found, (mem_foldlM_observe run).mpr (.inl known)⟩
    · exact ih rest later

end

namespace Census

variable {c : NodeCount}

/-- Nodes of one kind, summed up by their namespaces. -/
theorem sumSpaces_eq (h : Census r nodes c) {amount : NodeCountRecord → Nat}
    (known : ∀ n ∈ nodes, n.counts → r.spaceOf n ∈ c.records) (counts : ∀ n, p n → n.counts)
    (amounts : ∀ a, amount (spaceRecord r nodes a) = r.countIn nodes a p)
    (own : ∀ n : Node, (r.spaceOf n).kind? = some .space) : c.sumSpaces amount = nodes.countP p := by
  have records (a : NodeId) (s : NodeCountRecord) (found : c.records[a]? = some s)
      (kind : decide (a.kind? = some .space)) : amount s = r.countIn nodes a p := by
    have record := h.space (of_decide_eq_true kind)
    rw [found, Option.getD_some] at record
    rw [record, amounts]
  refine (sum_records c.records _ records).trans (Registry.sum_countIn fun n member wanted => ?_)
  exact mem_spaces.mpr ⟨known n member (counts n wanted), own n⟩

/-- Methods, summed up by the types in which they are found to be declared. -/
theorem sumTypes_methods (h : Census r nodes c)
    (declared : ∀ m, .method m ∈ nodes → ∃ d, r.type? m.refs.declaringType = some d
      ∧ d.id.kind? ≠ some .space ∧ d.id ∈ c.records)
    : c.sumTypes (·.methods) = nodes.countP Node.isMethod := by
  have records (x : NodeId) (s : NodeCountRecord) (found : c.records[x]? = some s)
      (kind : decide (x.kind? ≠ some .space))
      : s.methods = nodes.countP fun n => n.declaredIn? r = some x := by
    have record := h.type (of_decide_eq_true kind)
    rw [found, Option.getD_some] at record
    rw [record, typeRecord]
  refine (sum_records c.records _ records).trans ((sum_countP (Node.declaredIn? r) ?_).trans ?_)
  · intro n member x same
    cases n with
    | method m =>
      obtain ⟨d, found, kind, there⟩ := declared m member
      obtain rfl : d.id = x := by simpa [Node.declaredIn?, found] using same
      simpa [kind] using there
    | _ => simp [Node.declaredIn?] at same
  · refine List.countP_congr fun n member => ?_
    cases n with
    | method m =>
      obtain ⟨d, found, _⟩ := declared m member
      simp [Node.declaredIn?, found, Node.isMethod]
    | _ => simp [Node.declaredIn?, Node.isMethod]

/-- How many types are counted in a namespace, by its record if it has one. -/
theorem types_eq (h : Census r nodes c)
    (own : ∀ n : Node, (r.spaceOf n).kind? = some .space) (a : NodeId)
    : ((c.records[a]?).map NodeCountRecord.types).getD 0
      = r.countIn nodes a Node.isConcreteType + r.countIn nodes a Node.isAbstractType := by
  by_cases kind : a.kind? = some .space
  · have types : ((c.records[a]?).map NodeCountRecord.types).getD 0 = (spaceRecord r nodes a).types := by
      rw [← h.space kind]
      exact Option.getD_map NodeCountRecord.types .ofNamespace c.records[a]?
    refine types.trans (countP_add_countP nodes fun n => ?_)
    cases n with
    | type t =>
      cases sort : t.kind <;> cases flag : t.isAbstract <;>
        simp_all [Node.isClass, Node.isInterface, Node.isConcreteType, Node.isAbstractType,
          TypeNode.isAbstract, TypeNode.isInterface]
    | _ => rfl
  · have none (p : Node → Bool) : r.countIn nodes a p = 0 := by
      refine List.countP_eq_zero.mpr fun n _ inside => kind ?_
      have same : r.spaceOf n = a := by
        simp only [Bool.and_eq_true, decide_eq_true_eq] at inside
        exact inside.2
      exact same ▸ own n
    have types : ((c.records[a]?).map NodeCountRecord.types).getD 0 = (typeRecord r nodes a).types := by
      rw [← h.type kind]
      exact Option.getD_map NodeCountRecord.types .ofType c.records[a]?
    rw [types, none, none]
    rfl

end Census

end NodeCount

/-- The abstract types of all namespaces. -/
theorem Dependency.sum_abstractTypes {d : Dependency}
    (types : ∀ a, d.types a = addTypes r nodes a (0, 0))
    : (d.spaces.toList.map (·.2.abstractTypes)).sum = nodes.countP Node.isAbstractType := by
  have records (a : NodeId) (s : NamespaceRecord) (found : d.spaces[a]? = some s) (_ : true)
      : s.abstractTypes = r.countIn nodes a Node.isAbstractType := by
    have here := congrArg Prod.snd (types a)
    simpa [Dependency.types, found, addTypes] using here
  have total := (sum_records d.spaces (fun _ => true) records).trans
    (Registry.sum_countIn fun n member wanted => ?_)
  · simpa using total
  · have positive : 0 < r.countIn nodes (r.spaceOf n) Node.isAbstractType :=
      List.countP_pos_iff.mpr ⟨n, member, by simp [wanted]⟩
    have here := congrArg Prod.snd (types (r.spaceOf n))
    simp only [List.filter_true, List.mem_toFinset, Std.TreeMap.mem_keys]
    refine Decidable.byContradiction fun missing => ?_
    simp [Dependency.types, Std.TreeMap.getElem?_eq_none missing, addTypes] at here
    omega

/-- Whether the counts of two analyses balance. -/
structure Conserved (c : NodeCount) (d : Dependency) : Prop where
  classes : c.classes = c.sumSpaces (·.classes.getD 0)
  interfaces : c.interfaces = c.sumSpaces (·.interfaces.getD 0)
  methods : c.methods = c.sumSpaces (·.methods)
  functions : c.functions = c.sumSpaces (·.functions.getD 0)
  methodsOfTypes : c.methods = c.sumTypes (·.methods)
  namespaces : c.namespaces = c.spaces.card
  abstractClasses : c.abstractClasses ≤ c.classes
  types (a : NodeId) : ((d.spaces[a]?).map NamespaceRecord.totalTypes).getD 0
    = ((c.records[a]?).map NodeCountRecord.types).getD 0
  abstractTypes : (d.spaces.toList.map (·.2.abstractTypes)).sum = c.abstractClasses + c.interfaces

/-- What is counted for the same nodes balances. -/
theorem NodeCount.Census.conserved {c : NodeCount} {d : Dependency} (h : c.Census r nodes)
    (number : c.NumbersSpaces) (own : ∀ n : Node, (r.spaceOf n).kind? = some .space)
    (known : ∀ n ∈ nodes, n.counts → r.spaceOf n ∈ c.records)
    (declared : ∀ m, .method m ∈ nodes → ∃ d, r.type? m.refs.declaringType = some d
      ∧ d.id.kind? ≠ some .space ∧ d.id ∈ c.records)
    (types : ∀ a, d.types a = Dependency.addTypes r nodes a (0, 0)) : Conserved c d where
  classes := by
    refine h.totals.classes.trans (h.sumSpaces_eq known (fun n => ?_) (fun _ => rfl) own).symm
    cases n <;> simp [Node.isClass, Node.counts]
  interfaces := by
    refine h.totals.interfaces.trans (h.sumSpaces_eq known (fun n => ?_) (fun _ => rfl) own).symm
    cases n <;> simp [Node.isInterface, Node.counts]
  methods := by
    refine h.totals.methods.trans (h.sumSpaces_eq known (fun n => ?_) (fun _ => rfl) own).symm
    cases n <;> simp [Node.isMethod, Node.counts]
  functions := by
    refine h.totals.functions.trans (h.sumSpaces_eq known (fun n => ?_) (fun _ => rfl) own).symm
    cases n <;> simp [Node.isFunction, Node.counts]
  methodsOfTypes := h.totals.methods.trans (h.sumTypes_methods declared).symm
  namespaces := number
  abstractClasses := by
    rw [h.totals.abstractClasses, h.totals.classes]
    exact List.countP_mono_left fun n _ both => (Bool.and_eq_true_iff.mp both).1
  types a := by
    have total : ((d.spaces[a]?).map NamespaceRecord.totalTypes).getD 0
        = (d.types a).1 + (d.types a).2 := by
      unfold Dependency.types
      cases d.spaces[a]? <;> rfl
    rw [total, types, h.types_eq own]
    simp [Dependency.addTypes]
  abstractTypes := by
    rw [Dependency.sum_abstractTypes types, h.totals.abstractClasses, h.totals.interfaces]
    rw [← countP_add_countP (p := Node.isAbstractType) (q := fun _ => false) nodes fun n => ?_]
    · simp
    cases n with
    | type t =>
      cases sort : t.kind <;>
        simp [sort, Node.isClass, Node.isInterface, Node.isAbstractType, TypeNode.isAbstract,
          TypeNode.isInterface]
    | _ => rfl

theorem Analyzer.observeAll_nodeCount [CacheStore κ] (events : List Event) (c : NodeCount)
    : Traversal.observeAll r events (Analyzer.nodeCount c : Analyzer κ)
      = (events.foldlM (fun (c : NodeCount) e => c.observe r e) c).map .nodeCount := by
  induction events generalizing c with
  | nil => rfl
  | cons e events ih =>
    have step : Observer.observe r e (Analyzer.nodeCount c : Analyzer κ)
        = (c.observe r e).map .nodeCount := rfl
    rw [Traversal.observeAll, step, List.foldlM_cons]
    cases c.observe r e with
    | error fault => rfl
    | ok c => exact ih c

theorem Analyzer.observeAll_dependency [CacheStore κ] (events : List Event) (d : Dependency)
    : Traversal.observeAll r events (Analyzer.dependency d : Analyzer κ)
      = .ok (.dependency (events.foldl (fun d e => d.observe r e) d)) := by
  induction events generalizing d with
  | nil => rfl
  | cons e events ih => exact ih (d.observe r e)

variable {units : List CompilationUnit}

variable {files : List SourceFile}

/-- In plain files whose types have names, counting comes to its end. -/
theorem Bound.counts {o : Outline} (h : Bound files [] ∅ (units, r) o) (plain : Plain files)
    (named : ∀ file ∈ files, ∀ type ∈ file.types, type.2 ≠ "")
    : ∃ c, (Walk.units r units).events.foldlM (fun c e => NodeCount.observe r e c) {} = .ok c := by
  obtain ⟨a, done⟩ : ∃ a, Traversal.observeAll r (Walk.units r units).events
      (Analyzer.nodeCount {} : Analyzer NoCache) = .ok a :=
    (h.counts_iff (h.straight plain) named).mpr (h.not_overtaken plain)
  rw [Analyzer.observeAll_nodeCount] at done
  cases run : (Walk.units r units).events.foldlM (fun c e => NodeCount.observe r e c) {} with
  | error fault =>
    rw [run] at done
    cases done
  | ok c => exact ⟨c, rfl⟩

section

variable {o : Outline} {c : NodeCount}
  (counted : (Walk.units r units).events.foldlM (fun c e => NodeCount.observe r e c) {} = .ok c)

include counted

/-- All analyses come to their end with the walk if counting does. -/
theorem Analyzer.run_ended [CacheStore κ] {kinds : List AnalyzerKind} {cache : κ}
    (fine : (Walk.units r units).fault = none)
    : (Analyzer.run r units kinds cache).1.fault = none := by
  refine Traversal.follow_fault_iff.mpr ⟨fine, fun a member => ?_⟩
  obtain ⟨kind, _, rfl⟩ := List.mem_map.mp member
  cases kind with
  | nodeCount =>
    refine ⟨.nodeCount c, ?_⟩
    rw [Analyzer.start, Analyzer.observeAll_nodeCount, counted]
    rfl
  | _ => exact Analyzer.observeAll_ok _ (by simp [Analyzer.start, Analyzer.kind])

/-- A walk that enters no declaration twice leaves a census of what it has entered. -/
theorem Laid.census (h : Laid (Sourced files) r o)
    (once : ((entered (Walk.units r units).events).map Node.id).Nodup)
    : c.Census r (entered (Walk.units r units).events) ∧ c.NumbersSpaces := by
  have own (n : NamespaceNode) (member : .enter (.space n) ∈ (Walk.units r units).events)
      : n.id.kind? = some .space := by
    have named : (Visit.space n).IsNamed := h.visits_isNamed _ units _ member
    exact named
  have kinds (t : TypeNode) (member : .enter (.type t) ∈ (Walk.units r units).events)
      : t.id.kind? ≠ some .space :=
    Registry.kind?_type h.named (Walk.visits_registered r _ units _ member (.type t) rfl)
  exact ⟨(NodeCount.Census.start r).foldlM_observe h.kind?_namespaceNamed (fun _ _ => h.kind?_type?) own
      (fun t member => ⟨kinds t member, by simp⟩) once counted,
    NodeCount.NumbersSpaces.start.foldlM_observe h.kind?_namespaceNamed own kinds counted⟩

/-- What is counted in plain files balances with their dependencies. -/
theorem Bound.conserved (h : Bound files [] ∅ (units, r) o) (plain : Plain files)
    : Conserved c ((Walk.units r units).events.foldl (fun d e => d.observe r e) {}) := by
  obtain ⟨_, all⟩ := h.entered_units plain
  have laid : Laid (Sourced files) r o := h.laid
  obtain ⟨census, number⟩ := laid.census counted (all ▸ r.nodup_declarations)
  refine census.conserved number (fun n => laid.kind?_namespaceNamed _)
    (fun n member counts => NodeCount.spaceOf_mem counted member counts) (fun m member => ?_) fun a => ?_
  · obtain ⟨d, found, there⟩ := NodeCount.declaring_mem counted member
    exact ⟨d, found, laid.kind?_type? found, there⟩
  rw [Dependency.types_foldl_observe]
  rfl

end

/-- In plain files whose types have names, nothing keeps any analysis from its end, and what it then
leaves of the two analyzers balances: each total of the project is the sum over its namespaces, methods
are also summed up by types, the number of namespaces is that of their records, no more classes are
abstract than there are, and both find the same number of types in each namespace.
-/
theorem counts_conserved (files : List (SourceFile × String))
    (unbound : ∀ file ∈ files, file.1.Unbound)
    (named : ∀ file ∈ files, ∀ type ∈ file.1.types, type.2 ≠ "") (plain : Plain (files.map Prod.fst))
    : let units := (bindAll ∅ files).1
      let r := (bindAll ∅ files).2
      ∃ (c : NodeCount) (d : Dependency),
        (∀ (κ : Type) [CacheStore κ] (cache : κ) (kinds : List AnalyzerKind),
          let outcome := (Analyzer.run r units kinds cache).1
          outcome.fault = none
          ∧ ∀ i : Nat,
            (kinds[i]? = some .nodeCount → outcome.observers[i]? = some (.nodeCount c))
            ∧ (kinds[i]? = some .dependency → outcome.observers[i]? = some (.dependency d)))
        ∧ Conserved c d := by
  intro units r
  obtain ⟨o, bound⟩ := bindAll_empty_bound files unbound
  obtain ⟨fine, _⟩ := bound.entered_units plain
  obtain ⟨c, counted⟩ := bound.counts plain (by simpa using named)
  refine ⟨c, (Walk.units r units).events.foldl (fun d e => d.observe r e) {}, ?_,
    bound.conserved counted plain⟩
  intro κ _ cache kinds
  have ended : (Analyzer.run r units kinds cache).1.fault = none := Analyzer.run_ended counted fine
  refine ⟨ended, fun i => ⟨fun here => ?_, fun here => ?_⟩⟩
  · refine Analyzer.run_observer ended here ?_
    rw [Analyzer.start, Analyzer.observeAll_nodeCount, counted]
    rfl
  · exact Analyzer.run_observer ended here (Analyzer.observeAll_dependency _ _)

def inventory : SourceFile :=
  let method (name : String) (line : UInt64) : Member :=
    .method ⟨name, .isPublic, [], none, [], some [], ⟨line, line⟩⟩
  ⟨"a.php", [
    .inNamespace ⟨some "A", [.classDecl ⟨"A\\C", .none, none, [], [method "m" 2, method "n" 3], ⟨1, 4⟩⟩,
      .interfaceDecl ⟨"A\\I", [], [method "m" 6], ⟨5, 7⟩⟩], ⟨1, 8⟩⟩,
    .inNamespace ⟨some "B", [
      .classDecl ⟨"B\\D", .isAbstract, some "A\\C", ["A\\I"], [], ⟨10, 10⟩⟩,
      .functionDecl ⟨"B\\f", [], none, [], [], ⟨11, 12⟩⟩], ⟨9, 13⟩⟩]⟩

/-- Its three methods are those of the first namespace, and two of its types are abstract. -/
theorem counts_conserved_inventory
    : (∀ file ∈ [(inventory, "")], file.1.Unbound)
      ∧ (∀ file ∈ [(inventory, "")], ∀ type ∈ file.1.types, type.2 ≠ "")
      ∧ Plain [inventory]
      ∧ ∃ (c : NodeCount) (d : Dependency),
        (Analyzer.run (bindAll ∅ [(inventory, "")]).2 (bindAll ∅ [(inventory, "")]).1
          [.nodeCount, .dependency] NoCache.mk).1.observers[0]? = some (.nodeCount c)
        ∧ c.sumSpaces (·.methods) = 3 ∧ c.sumTypes (·.methods) = 3
        ∧ (d.spaces.toList.map (·.2.abstractTypes)).sum = 2 := by
  have unbound : ∀ file ∈ [(inventory, "")], file.1.Unbound := by decide +kernel
  have named : ∀ file ∈ [(inventory, "")], ∀ type ∈ file.1.types, type.2 ≠ "" := by decide +kernel
  have plain : Plain [inventory] := by decide +kernel
  obtain ⟨c, d, run, conserved⟩ := counts_conserved [(inventory, "")] unbound named plain
  have found := ((run NoCache NoCache.mk [.nodeCount, .dependency]).2 0).1 rfl
  have counted : ((Analyzer.run (bindAll ∅ [(inventory, "")]).2 (bindAll ∅ [(inventory, "")]).1
      [.nodeCount, .dependency] NoCache.mk).1.observers[0]?).bind
        (fun | .nodeCount c => some (c.methods, c.abstractClasses, c.interfaces) | _ => none)
      = some (3, 1, 1) := by decide +kernel
  rw [found] at counted
  obtain ⟨methods, abstractClasses, interfaces⟩ : c.methods = 3 ∧ c.abstractClasses = 1
      ∧ c.interfaces = 1 := by simpa using counted
  refine ⟨unbound, named, plain, c, d, found, ?_, ?_, ?_⟩
  · exact conserved.methods.symm.trans methods
  · exact conserved.methodsOfTypes.symm.trans methods
  · rw [conserved.abstractTypes, abstractClasses, interfaces]

end DesignMetrics
