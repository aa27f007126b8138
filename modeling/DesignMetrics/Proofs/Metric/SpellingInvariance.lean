import DesignMetrics.Proofs.Binding.Folding
import DesignMetrics.Proofs.Metric.Couplings
import DesignMetrics.Proofs.Metric.Respelling

/-! Coupling does not depend on the spelling of references.
The same scopes depend on a declared type however references are spelled. A type that is not declared
is counted once for each of its spellings, so the fanout and the dependencies of a type are the least
where each has one spelling, and then it does not matter which.
-/

namespace DesignMetrics

/-- What is told apart by a key is not more than what has the same keys. -/
theorem card_le_of_keys {α β : Type} [DecidableEq α] [DecidableEq β] (key : α → β) {s s' : Finset α}
    (apart : ∀ a ∈ s, ∀ b ∈ s, key a = key b → a = b) (found : ∀ a ∈ s, ∃ b ∈ s', key a = key b)
    : s.card ≤ s'.card := by
  have images : s.image key ⊆ s'.image key := by
    intro k member
    obtain ⟨a, inside, rfl⟩ := Finset.mem_image.mp member
    obtain ⟨b, inside', same⟩ := found a inside
    exact Finset.mem_image.mpr ⟨b, inside', same.symm⟩
  calc s.card = (s.image key).card :=
        (Finset.card_image_of_injOn fun a left b right => apart a left b right).symm
    _ ≤ (s'.image key).card := Finset.card_le_card images
    _ ≤ s'.card := Finset.card_image_le

theorem card_toFinset_toList (ids : Std.TreeSet NodeId) : ids.toList.toFinset.card = ids.size := by
  have distinct : ids.toList.Nodup :=
    ids.distinct_toList.imp fun different same => different (by simp [same])
  rw [List.toFinset_card_of_nodup distinct, Std.TreeSet.length_toList]

namespace Coupling

def after (r : Registry) (events : List Event) : Coupling :=
  events.foldl (fun c e => c.observe r e) {}

theorem holds_after (r : Registry) (events : List Event)
    : (after r events).Holds ((events.foldl ScopeLog.step ⟨[], 0⟩).Edge r) :=
  ((Reflects.start r).foldl_observe events).edges

def edges (c : Coupling) : Finset (NodeId × NodeId) :=
  c.nodeIds.toFinset.biUnion fun id => (c.record id).afferent.toList.toFinset.image (id, ·)

theorem mem_edges {c : Coupling} {id scope : NodeId}
    : (id, scope) ∈ c.edges ↔ scope ∈ (c.record id).afferent := by
  have known (member : scope ∈ (c.record id).afferent) : id ∈ c.records := by
    by_cases missing : id ∈ c.records
    · exact missing
    · simp [record, Std.TreeMap.getD_eq_fallback missing] at member
  simp only [edges, nodeIds, Finset.mem_biUnion, List.mem_toFinset, Std.TreeMap.mem_keys,
    Finset.mem_image, Std.TreeSet.mem_toList, Prod.mk.injEq]
  constructor
  · rintro ⟨_, _, _, member, rfl, rfl⟩
    exact member
  · intro member
    exact ⟨id, known member, scope, member, rfl, rfl⟩

/-- The fanout is the number of edges. -/
theorem card_edges (r : Registry) (events : List Event)
    : (after r events).edges.card = (after r events).fanout := by
  have distinct : (after r events).nodeIds.Nodup :=
    (after r events).records.distinct_keys.imp fun different same => different (by simp [same])
  have balanced : (after r events).fanout = (after r events).edgeCount :=
    Balanced.start.foldl_observe events
  rw [balanced, edges, Finset.card_biUnion, edgeCount, ← List.sum_toFinset _ distinct]
  · refine Finset.sum_congr rfl fun id _ => ?_
    rw [Finset.card_image_of_injective _ fun _ _ same => (Prod.mk.inj same).2, card_toFinset_toList]
  · intro x _ y _ different
    rw [Function.onFun, Finset.disjoint_left]
    rintro _ left right
    obtain ⟨_, _, rfl⟩ := Finset.mem_image.mp left
    obtain ⟨_, _, same⟩ := Finset.mem_image.mp right
    exact different (Prod.mk.inj same).1.symm

section

variable {r r' : Registry} (h : r.Respelled r') {events events' : List Event}
variable (same : events.map (Event.map Visit.folded) = events'.map (Event.map Visit.folded))

include h same

/-- The same scopes depend on a declared type. -/
theorem afferent_respelled {t : TypeNode} (there : .type t ∈ r.toList) {scope : NodeId}
    (depends : scope ∈ ((after r events).record t.id).afferent)
    : scope ∈ ((after r' events').record t.id).afferent := by
  have holds := holds_after r events
  have holds' := holds_after r' events'
  obtain ⟨s, u, edge, rfl, here⟩ := (holds.afferent t.id scope).mp depends
  obtain rfl : u = t := by
    rw [← (edge.target_mem h.left).2, here, Registry.typeAt_of_mem there]
  obtain ⟨u', edge', ids⟩ := edge.respelled h (ScopeLog.folded_eq same) (h.left.inheritsOnce there)
  obtain ⟨_, folds⟩ := h.folded_of_mem (edge'.target_mem h.right).2 ids there
  exact (holds'.afferent u.id s.id).mpr
    ⟨s, u', edge', rfl, (TypeNode.id_eq_of_folded folds).symm⟩

variable (one : r.OneSpelling events)

include one

/-- With one spelling for each type, every edge is there under any other spelling. -/
theorem edge_respelled {scope : CouplingScope} {t : TypeNode}
    (edge : (events.foldl ScopeLog.step ⟨[], 0⟩).Edge r scope t)
    : ∃ t', (events'.foldl ScopeLog.step ⟨[], 0⟩).Edge r' scope t' ∧ t.foldedId = t'.foldedId := by
  obtain ⟨known, standing⟩ := edge.target_mem h.left
  exact edge.respelled h (ScopeLog.folded_eq same) (one.inheritsOnce h.left known standing)

omit same in
/-- With one spelling for each type, edges lead to types that are told apart by more than case. -/
theorem target_eq {scope scope' : CouplingScope} {t u : TypeNode}
    (left : (events.foldl ScopeLog.step ⟨[], 0⟩).Edge r scope t)
    (right : (events.foldl ScopeLog.step ⟨[], 0⟩).Edge r scope' u) (ids : t.foldedId = u.foldedId)
    : t.id = u.id := by
  obtain ⟨known, standing⟩ := left.target_mem h.left
  obtain ⟨known', standing'⟩ := right.target_mem h.left
  exact one.id_eq h.left known standing known' standing' ids

/-- One spelling for each type gives the least fanout. -/
theorem fanout_le_respelled : (after r events).fanout ≤ (after r' events').fanout := by
  have holds := holds_after r events
  have holds' := holds_after r' events'
  rw [← card_edges, ← card_edges]
  refine card_le_of_keys (fun edge => (Text.lower edge.1.text, edge.2)) ?_ ?_
  · rintro ⟨x, scope⟩ left ⟨y, scope'⟩ right keys
    obtain ⟨ids, rfl⟩ := Prod.mk.inj keys
    obtain ⟨_, t, edge, _, rfl⟩ := (holds.afferent x scope).mp (mem_edges.mp left)
    obtain ⟨_, u, edge', _, rfl⟩ := (holds.afferent y scope).mp (mem_edges.mp right)
    rw [target_eq h one edge edge' ids]
  · rintro ⟨x, scope⟩ member
    obtain ⟨s, t, edge, rfl, rfl⟩ := (holds.afferent x scope).mp (mem_edges.mp member)
    obtain ⟨t', edge', ids⟩ := edge_respelled h same one edge
    exact ⟨(t'.id, s.id), mem_edges.mpr ((holds'.afferent _ _).mpr ⟨s, t', edge', rfl, rfl⟩),
      Prod.ext ids rfl⟩

/-- One spelling for each type gives each type the least dependencies. -/
theorem efferent_le_respelled (id : NodeId)
    : ((after r events).record id).efferent.size ≤ ((after r' events').record id).efferent.size := by
  have holds := holds_after r events
  have holds' := holds_after r' events'
  rw [← card_toFinset_toList, ← card_toFinset_toList]
  refine card_le_of_keys (fun target => Text.lower target.text) ?_ ?_
  · intro x left y right ids
    obtain ⟨t, edge, rfl⟩ := (holds.efferent id x).mp (by simpa using left)
    obtain ⟨u, edge', rfl⟩ := (holds.efferent id y).mp (by simpa using right)
    exact target_eq h one edge edge' ids
  · intro x member
    obtain ⟨t, edge, rfl⟩ := (holds.efferent id x).mp (by simpa using member)
    obtain ⟨t', edge', ids⟩ := edge_respelled h same one edge
    exact ⟨t'.id, by simpa using (holds'.efferent id t'.id).mpr ⟨t', edge', rfl⟩, ids⟩

end

def HasEdge (c : Coupling) (id : NodeId) : Prop :=
  (∃ scope, scope ∈ (c.record id).afferent) ∨ ∃ target, target ∈ (c.record id).efferent

def Records (types : NodeId → Prop) (c : Coupling) : Prop :=
  ∀ id, id ∈ c.records ↔ types id ∨ c.HasEdge id

namespace Records

variable {r : Registry} {c c' : Coupling} {types types' : NodeId → Prop}

theorem start : Records (fun _ => False) {} := by simp [Records, HasEdge, record]

variable (h : Records types c)

include h

theorem congr (records : ∀ x, x ∈ c'.records ↔ x ∈ c.records) (edges : ∀ x, c'.record x = c.record x)
    : Records types c' := by
  intro x
  rw [records, h, HasEdge, HasEdge, edges]

/-- A new end of an edge has a record. -/
theorem insert (id : NodeId) (records : ∀ x, x ∈ c'.records ↔ id = x ∨ x ∈ c.records)
    (edges : ∀ x, c'.HasEdge x ↔ id = x ∨ c.HasEdge x) : Records types c' := by
  intro x
  rw [records, h, edges]
  exact or_left_comm

theorem addAfferent (id scope : NodeId) : Records types (c.addAfferent id scope) := by
  refine h.insert id (fun x => by simp [Coupling.addAfferent, Std.TreeMap.mem_insert]) fun x => ?_
  simp only [HasEdge, mem_afferent_addAfferent, efferent_addAfferent, exists_or, exists_eq_left,
    eq_comm (a := x)]
  exact or_right_comm.trans or_comm

theorem addEfferent (id target : NodeId) : Records types (c.addEfferent id target) := by
  refine h.insert id (fun x => by simp [Coupling.addEfferent, Std.TreeMap.mem_insert]) fun x => ?_
  simp only [HasEdge, mem_efferent_addEfferent, afferent_addEfferent, exists_or, exists_eq_left,
    eq_comm (a := x)]
  exact or_assoc.symm.trans or_comm

theorem couple (t : TypeNode) : Records types (c.couple r t) := by
  unfold Coupling.couple
  split
  · exact h
  · split
    · exact h
    · dsimp only
      split
      · exact (h.addAfferent _ _).addEfferent _ _
      · exact h.addAfferent _ _

theorem foldl_couple (targets : List TypeNode)
    : Records types (targets.foldl (Coupling.couple r) c) := by
  induction targets generalizing c with
  | nil => exact h
  | cons t targets ih => exact ih (h.couple t)

theorem noteCall (v : Visit) : Records types (c.noteCall v) := by
  unfold Coupling.noteCall
  split
  · split
    · exact h.congr (fun _ => .rfl) fun _ => rfl
    · exact h
  · exact h

/-- A type that is entered gets a record. -/
theorem initRecord (v : Visit)
    : Records (fun id => types id ∨ ∃ t, v = .type t ∧ t.id = id) (c.initRecord v) := by
  intro x
  have edges : (c.initRecord v).HasEdge x ↔ c.HasEdge x := by simp only [HasEdge, record_initRecord]
  rw [edges]
  have known := h x
  cases v with
  | type t =>
    simp only [Coupling.initRecord, Std.TreeMap.mem_insertIfNew, Std.LawfulEqOrd.compare_eq_iff_eq,
      known, Visit.type.injEq, exists_eq_left']
    exact or_assoc.symm.trans (or_congr_left or_comm)
  | _ => simpa [Coupling.initRecord] using known

/-- There are records of the types that have been entered, and of both ends of edges. -/
theorem observe (e : Event)
    : Records (fun id => types id ∨ ∃ t, e = .enter (.type t) ∧ t.id = id) (c.observe r e) := by
  cases e with
  | leave v =>
    have left : Records types (c.leave v) := by
      cases v <;> exact h.congr (fun _ => .rfl) fun _ => rfl
    exact fun x => (left x).trans (by simp [Coupling.observe])
  | enter v =>
    have opened : Records types (c.openScope v) := by
      unfold Coupling.openScope
      split
      · exact h.congr (fun _ => .rfl) fun _ => rfl
      · exact h
    have coupled := (opened.initRecord v).foldl_couple (r := r)
      (r.references (((c.openScope v).initRecord v).currentType? r) v)
    have noted := coupled.noteCall v
    exact fun x => (noted x).trans (by simp [Coupling.observe, Coupling.enter])

theorem foldl_observe (events : List Event)
    : Records (fun id => types id ∨ ∃ t, .enter (.type t) ∈ events ∧ t.id = id)
        (events.foldl (fun c e => c.observe r e) c) := by
  induction events generalizing c types with
  | nil => exact fun x => (h x).trans (by simp)
  | cons e events ih =>
    refine fun x => (ih (h.observe e) x).trans (or_congr_left ?_)
    simp only [List.mem_cons, or_and_right, exists_or, eq_comm (b := e), or_assoc]

end Records

theorem nodeMetrics_eq (c : Coupling) (id : NodeId)
    : c.nodeMetrics id
      = if id ∈ c.records then
          [("ca", count (c.record id).afferent.size), ("cbo", count (c.record id).efferent.size),
            ("ce", count (c.record id).efferent.size)]
        else [] := by
  unfold nodeMetrics
  cases found : c.records[id]? with
  | none =>
    have missing : id ∉ c.records := by simp [Std.TreeMap.mem_iff_isSome_getElem?, found]
    rw [if_neg missing]
  | some known =>
    have there : id ∈ c.records := by simp [Std.TreeMap.mem_iff_isSome_getElem?, found]
    rw [if_pos there, record, Std.TreeMap.getD_eq_getD_getElem?, found, Option.getD_some]

section

variable {r r' : Registry} {events events' : List Event}

/-- The same types are entered. -/
theorem entered_respelled
    (same : events.map (Event.map Visit.folded) = events'.map (Event.map Visit.folded)) {id : NodeId}
    (entered : ∃ t, .enter (.type t) ∈ events ∧ t.id = id)
    : ∃ t, .enter (.type t) ∈ events' ∧ t.id = id := by
  obtain ⟨t, entered, rfl⟩ := entered
  obtain ⟨e', member, folds⟩ := List.mem_map.mp
    (same ▸ List.mem_map_of_mem (f := Event.map Visit.folded) entered)
  cases e' with
  | leave v => simp [Event.map] at folds
  | enter v =>
    cases v <;> simp only [Event.map, Visit.folded, Event.enter.injEq, reduceCtorEq,
      Visit.type.injEq] at folds
    exact ⟨_, member, TypeNode.id_eq_of_folded folds⟩

theorem exists_mem_iff_size (ids : Std.TreeSet NodeId) : (∃ id, id ∈ ids) ↔ ids.size ≠ 0 := by
  rw [← card_toFinset_toList, Finset.card_ne_zero]
  simp [Finset.Nonempty]

/-- A declared type has a record in both runs or in none. -/
theorem mem_records_respelled
    (same : events.map (Event.map Visit.folded) = events'.map (Event.map Visit.folded)) {id : NodeId}
    (afferent : ((after r events).record id).afferent.size
      = ((after r' events').record id).afferent.size)
    (efferent : ((after r events).record id).efferent.size
      = ((after r' events').record id).efferent.size)
    : id ∈ (after r events).records ↔ id ∈ (after r' events').records := by
  have left := Records.start.foldl_observe (r := r) events id
  have right := Records.start.foldl_observe (r := r') events' id
  simp only [false_or] at left right
  rw [after, after, left, right]
  refine or_congr ⟨entered_respelled same, entered_respelled same.symm⟩ ?_
  simp only [HasEdge, exists_mem_iff_size]
  exact or_congr (by rw [← after, ← after, afferent]) (by rw [← after, ← after, efferent])

end

end Coupling

section

variable {r r' : Registry} (h : r.Respelled r')

include h

namespace NodeCount

omit h in
theorem observe_folded (r : Registry) (e : Event) (c : NodeCount)
    : c.observe r (e.map Visit.folded) = c.observe r e := by
  cases e with
  | enter v | leave v => cases v <;> rfl

/-- Counting does not look at references. -/
theorem observe_respelled {e e' : Event} (same : e.map Visit.folded = e'.map Visit.folded)
    (c : NodeCount) : c.observe r e = c.observe r' e' := by
  rw [← observe_folded r e, ← observe_folded r' e', same]
  cases e'.map Visit.folded with
  | leave v => rfl
  | enter v =>
    cases v with
    | type t => simp only [observe, enterType, h.namespaceNamed]
    | method m => exact enterMethod_congr (h.id_type? _) (by rw [h.namespaceNamed]) c
    | function f => simp only [observe, h.namespaceNamed]
    | _ => rfl

end NodeCount

namespace Analyzer

variable {κ : Type} [CacheStore κ]

omit h in
theorem observeAll_cons_nodeCount (e : Event) (events : List Event) (c : NodeCount)
    : Traversal.observeAll r (e :: events) (Analyzer.nodeCount c : Analyzer κ)
      = (c.observe r e).bind fun c => Traversal.observeAll r events (.nodeCount c) := by
  have step : Observer.observe r e (Analyzer.nodeCount c : Analyzer κ)
      = (c.observe r e).map Analyzer.nodeCount := rfl
  rw [Traversal.observeAll, step]
  cases c.observe r e <;> rfl

theorem observeAll_nodeCount_respelled {events events' : List Event}
    (same : events.map (Event.map Visit.folded) = events'.map (Event.map Visit.folded)) (c : NodeCount)
    : Traversal.observeAll r events (Analyzer.nodeCount c : Analyzer κ)
      = Traversal.observeAll r' events' (.nodeCount c) := by
  induction events generalizing events' c with
  | nil =>
    obtain rfl : events' = [] := by simpa using same.symm
    rfl
  | cons e events ih =>
    obtain ⟨e', events', rfl, here, later⟩ := List.map_eq_cons_iff.mp same.symm
    rw [observeAll_cons_nodeCount, observeAll_cons_nodeCount,
      NodeCount.observe_respelled h here.symm c]
    exact congrArg _ (funext (ih later.symm))

/-- An analysis comes to its end in every spelling or in none. -/
theorem run_fault_respelled {us us' : List CompilationUnit}
    (folds : us.map CompilationUnit.folded = us'.map CompilationUnit.folded) (cache cache' : κ)
    {kinds : List AnalyzerKind} (ended : (run r us kinds cache).1.fault = none)
    : (run r' us' kinds cache').1.fault = none := by
  obtain ⟨events, faults⟩ := Walk.mk.inj (Walk.folded_units h folds)
  obtain ⟨fine, taken⟩ := Traversal.follow_fault_iff.mp ended
  refine Traversal.follow_fault_iff.mpr ⟨faults ▸ fine, fun a member => ?_⟩
  obtain ⟨kind, listed, rfl⟩ := List.mem_map.mp member
  cases kind with
  | nodeCount =>
    obtain ⟨a, counted⟩ := taken _ (List.mem_map_of_mem listed)
    exact ⟨a, (observeAll_nodeCount_respelled h events {}).symm.trans counted⟩
  | _ => exact observeAll_ok _ (by simp [start, Analyzer.kind])

end Analyzer

end

/-- In files that differ in the case of references only, an analysis comes to its end in both or in
neither. The same types are declared, and the same scopes depend on each of them. The fanout and the
number of types that a type depends on are the least where each type that is looked up has one
spelling. Where it has one in both, the fanout and the metrics of every declared type are equal.
-/
theorem coupling_up_to_spelling (files files' : List (SourceFile × String))
    (same : files.map (·.1.folded) = files'.map (·.1.folded))
    : let units := (bindAll ∅ files).1
      let r := (bindAll ∅ files).2
      let units' := (bindAll ∅ files').1
      let r' := (bindAll ∅ files').2
      let events := (Walk.units r units).events
      let events' := (Walk.units r' units').events
      let c := Coupling.after r events
      let c' := Coupling.after r' events'
      (∀ (κ : Type) [CacheStore κ] (cache cache' : κ) (kinds : List AnalyzerKind),
          let outcome := (Analyzer.run r units kinds cache).1
          let outcome' := (Analyzer.run r' units' kinds cache').1
          (outcome.fault = none ↔ outcome'.fault = none)
          ∧ (outcome.fault = none → ∀ i : Nat, kinds[i]? = some .coupling
            → outcome.observers[i]? = some (.coupling c)
              ∧ outcome'.observers[i]? = some (.coupling c')))
      ∧ r.types.map TypeNode.id = r'.types.map TypeNode.id
      ∧ (∀ t ∈ r.types, ∀ scope,
          scope ∈ (c.record t.id).afferent ↔ scope ∈ (c'.record t.id).afferent)
      ∧ (r.OneSpelling events
        → c.fanout ≤ c'.fanout
          ∧ ∀ id, (c.record id).efferent.size ≤ (c'.record id).efferent.size)
      ∧ (r.OneSpelling events → r'.OneSpelling events'
        → c.fanout = c'.fanout ∧ ∀ t ∈ r.types, c.nodeMetrics t.id = c'.nodeMetrics t.id) := by
  intro units r units' r' events events' c c'
  obtain ⟨h, folds⟩ := Registry.Respelled.bindAll ⟨rfl, Tidy.empty, Tidy.empty⟩ same
  have met := (Walk.mk.inj (Walk.folded_units h folds)).1
  have afferent (t : TypeNode) (listed : t ∈ r.types) (scope : NodeId)
      : scope ∈ (c.record t.id).afferent ↔ scope ∈ (c'.record t.id).afferent := by
    obtain ⟨t', listed', ids⟩ := List.mem_map.mp (h.types ▸ List.mem_map_of_mem listed)
    refine ⟨Coupling.afferent_respelled h met (Registry.mem_types.mp listed), fun depends => ?_⟩
    rw [← ids] at depends ⊢
    exact Coupling.afferent_respelled h.symm met.symm (Registry.mem_types.mp listed') depends
  refine ⟨fun κ _ cache cache' kinds => ⟨⟨?_, ?_⟩, fun ended i here => ?_⟩, h.types, afferent,
    fun one => ?_, fun one one' => ⟨?_, fun t listed => ?_⟩⟩
  · exact Analyzer.run_fault_respelled h folds cache cache'
  · exact Analyzer.run_fault_respelled h.symm folds.symm cache' cache
  · exact ⟨Analyzer.run_coupling ended here,
      Analyzer.run_coupling (Analyzer.run_fault_respelled h folds cache cache' ended) here⟩
  · exact ⟨Coupling.fanout_le_respelled h met one, Coupling.efferent_le_respelled h met one⟩
  · exact le_antisymm (Coupling.fanout_le_respelled h met one)
      (Coupling.fanout_le_respelled h.symm met.symm one')
  · have scopes : (c.record t.id).afferent.size = (c'.record t.id).afferent.size :=
      (Std.TreeSet.Equiv.of_forall_mem_iff (afferent t listed)).size_eq
    have targets : (c.record t.id).efferent.size = (c'.record t.id).efferent.size :=
      le_antisymm (Coupling.efferent_le_respelled h met one t.id)
        (Coupling.efferent_le_respelled h.symm met.symm one' t.id)
    rw [Coupling.nodeMetrics_eq, Coupling.nodeMetrics_eq, scopes, targets]
    exact if_congr (Coupling.mem_records_respelled met scopes targets) rfl rfl

def maker (parent : String) (made : List String) : SourceFile :=
  let make (name : String) : Stmt := .expr (.newObject (.type (.named name)) [])
  ⟨"a.php", [
    .classDecl ⟨"A", .none, some parent, [],
      [.method ⟨"m", .isPublic, [], none, [], some (made.map make), ⟨2, 4⟩⟩], ⟨1, 5⟩⟩,
    .classDecl ⟨"B", .none, none, [], [], ⟨6, 6⟩⟩]⟩

theorem folded_maker {parent parent' : String} {made made' : List String}
    (parents : Text.lower parent = Text.lower parent')
    (names : made.map Text.lower = made'.map Text.lower)
    : (maker parent made).folded = (maker parent' made').folded := by
  have body (made : List String)
      : (made.map fun name => Stmt.expr (.newObject (.type (.named name)) [])).map Stmt.folded
        = (made.map Text.lower).map fun name => Stmt.expr (.newObject (.type (.named name)) []) := by
    simp [Stmt.folded, Expr.folded, ClassRef.folded, TypeRef.folded]
  simp [maker, SourceFile.folded, Stmt.folded, ClassDecl.folded, Member.folded, MethodDecl.folded,
    body, parents, names, -List.map_map]

def Coupling.ofFile (file : SourceFile) : Coupling :=
  let bound := bindAll ∅ [(file, "")]
  after bound.2 (Walk.units bound.2 bound.1).events

/-- A declared class in another spelling, and classes that are not declared in one spelling each. -/
theorem coupling_up_to_spelling_maker
    : let file := maker "Base" ["B", "Ext", "b"]
      let file' := maker "BASE" ["b", "EXT", "b"]
      let bound := bindAll ∅ [(file, "")]
      let bound' := bindAll ∅ [(file', "")]
      [(file, "")].map (·.1.folded) = [(file', "")].map (·.1.folded)
      ∧ bound.2.OneSpelling (Walk.units bound.2 bound.1).events
      ∧ bound'.2.OneSpelling (Walk.units bound'.2 bound'.1).events
      ∧ (Coupling.ofFile file).fanout = 2
      ∧ (Coupling.ofFile file').fanout = 2
      ∧ ∀ t ∈ bound.2.types,
          (Coupling.ofFile file).nodeMetrics t.id = (Coupling.ofFile file').nodeMetrics t.id := by
  intro file file' bound bound'
  have same : [(file, "")].map (·.1.folded) = [(file', "")].map (·.1.folded) :=
    congrArg (fun f => [f]) (folded_maker (by decide +kernel) (by decide +kernel))
  have one : bound.2.OneSpelling (Walk.units bound.2 bound.1).events := by decide +kernel
  have one' : bound'.2.OneSpelling (Walk.units bound'.2 bound'.1).events := by decide +kernel
  have two : (Coupling.ofFile file).fanout = 2 := by decide +kernel
  obtain ⟨_, _, _, _, equal⟩ := coupling_up_to_spelling [(file, "")] [(file', "")] same
  obtain ⟨fanouts, metrics⟩ := equal one one'
  exact ⟨same, one, one', two, fanouts.symm.trans two, metrics⟩

/-- A class that is not declared counts once for each of its spellings, and a parent in another spelling
is not seen to be the parent. -/
theorem coupling_counts_spellings
    : (maker "Base" ["Ext", "EXT"]).folded = (maker "Base" ["Ext", "Ext"]).folded
      ∧ (Coupling.ofFile (maker "Base" ["Ext", "EXT"])).fanout = 2
      ∧ ((Coupling.ofFile (maker "Base" ["Ext", "EXT"])).record (.classType "A")).efferent.size = 2
      ∧ (Coupling.ofFile (maker "Base" ["Ext", "Ext"])).fanout = 1
      ∧ ((Coupling.ofFile (maker "Base" ["Ext", "Ext"])).record (.classType "A")).efferent.size = 1
      ∧ (maker "Base" ["BASE"]).folded = (maker "Base" ["Base"]).folded
      ∧ (Coupling.ofFile (maker "Base" ["BASE"])).fanout = 1
      ∧ (Coupling.ofFile (maker "Base" ["Base"])).fanout = 0 := by
  refine ⟨folded_maker rfl ?_, ?_, ?_, ?_, ?_, folded_maker rfl ?_, ?_, ?_⟩ <;> decide +kernel

end DesignMetrics
