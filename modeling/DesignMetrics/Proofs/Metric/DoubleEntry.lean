import Mathlib.Algebra.BigOperators.Group.Finset.Basic
import DesignMetrics.Proofs.Binding.FirstWins
import DesignMetrics.Proofs.Metric.ScopeLog
import DesignMetrics.Proofs.Registry.Inheritance
import DesignMetrics.Proofs.Traversal.Nesting

/-! Coupling is kept at both of its ends.
After any events of a walk, the scopes that depend on a type and the types that a type depends on are
two views of the same edges, and the fanout is their number.
-/

namespace DesignMetrics

-- Fanout

namespace Coupling

variable {r : Registry} {c : Coupling}

def edgeCount (c : Coupling) : Nat := (c.nodeIds.map fun id => (c.record id).afferent.size).sum

/-- Types without a record have no edges, so they may be counted as well. -/
theorem edgeCount_eq_sum {ids : Finset NodeId} (all : ∀ id ∈ c.nodeIds, id ∈ ids)
    : c.edgeCount = ∑ id ∈ ids, (c.record id).afferent.size := by
  have distinct : c.nodeIds.Nodup :=
    c.records.distinct_keys.imp fun different same => different (by simp [same])
  have listed : c.edgeCount = ∑ id ∈ c.nodeIds.toFinset, (c.record id).afferent.size :=
    (List.sum_toFinset _ distinct).symm
  rw [listed]
  refine Finset.sum_subset (fun id member => all id (by simpa using member)) fun id _ other => ?_
  have missing : id ∉ c.records := by simpa [nodeIds] using other
  simp [record, Std.TreeMap.getD_eq_fallback missing]

/-- The edges are as many if every type has as many. -/
theorem edgeCount_congr {c' : Coupling} (same : ∀ id, (c'.record id).afferent = (c.record id).afferent)
    : c'.edgeCount = c.edgeCount := by
  have left : ∀ id ∈ c'.nodeIds, id ∈ (c'.nodeIds ++ c.nodeIds).toFinset := by simp +contextual
  have right : ∀ id ∈ c.nodeIds, id ∈ (c'.nodeIds ++ c.nodeIds).toFinset := by simp +contextual
  rw [edgeCount_eq_sum left, edgeCount_eq_sum right]
  exact Finset.sum_congr rfl fun id _ => by rw [same]

/-- A scope that depends on a type is one more edge, unless it was there. -/
theorem edgeCount_addAfferent (id scope : NodeId)
    : (c.addAfferent id scope).edgeCount
      = if (c.record id).afferent.contains scope then c.edgeCount else c.edgeCount + 1 := by
  have others : ∀ x ∈ c.nodeIds.toFinset.erase id,
      ((c.addAfferent id scope).record x).afferent.size = (c.record x).afferent.size := by
    intro x member
    rw [record_addAfferent, if_neg (Finset.ne_of_mem_erase member)]
  have covered : ∀ x ∈ c.nodeIds, x ∈ insert id (c.nodeIds.toFinset.erase id) := by
    intro x member
    by_cases same : x = id <;> simp [same, member]
  have covered' : ∀ x ∈ (c.addAfferent id scope).nodeIds,
      x ∈ insert id (c.nodeIds.toFinset.erase id) := by
    intro x member
    have known : x ∈ c.records.insert id _ := Std.TreeMap.mem_keys.mp member
    by_cases same : x = id
    · simp [same]
    · have known : x ∈ c.records :=
        (Std.TreeMap.mem_insert.mp known).resolve_left (by simpa using Ne.symm same)
      exact covered x (Std.TreeMap.mem_keys.mpr known)
  rw [edgeCount_eq_sum covered, edgeCount_eq_sum covered',
    Finset.sum_insert (Finset.notMem_erase _ _), Finset.sum_insert (Finset.notMem_erase _ _),
    Finset.sum_congr rfl others, record_addAfferent, if_pos rfl, Std.TreeSet.size_insert]
  split
  · simp_all
  · simp_all
    omega

/-- Noting a call opens no scope and adds no edge. -/
theorem noteCall_frame (c : Coupling) (v : Visit)
    : (c.noteCall v).scopes = c.scopes ∧ (c.noteCall v).fanout = c.fanout
      ∧ ∀ id, (c.noteCall v).record id = c.record id := by
  unfold noteCall
  split
  · split <;> exact ⟨rfl, rfl, fun _ => rfl⟩
  · exact ⟨rfl, rfl, fun _ => rfl⟩

def Balanced (c : Coupling) : Prop := c.fanout = c.edgeCount

namespace Balanced

theorem start : Balanced {} := rfl

variable (h : Balanced c)

include h

theorem congr {c' : Coupling} (fanout : c'.fanout = c.fanout)
    (same : ∀ id, (c'.record id).afferent = (c.record id).afferent) : Balanced c' := by
  rw [Balanced, fanout, h, edgeCount_congr same]

theorem couple (t : TypeNode) : Balanced (c.couple r t) := by
  have added (scope : NodeId) : Balanced (c.addAfferent t.id scope) := by
    rw [Balanced, edgeCount_addAfferent, ← h]
    rfl
  unfold Coupling.couple
  split
  · exact h
  · split
    · exact h
    · dsimp only
      split
      · exact (added _).congr rfl fun id => by simp
      · exact added _

theorem foldl_couple (types : List TypeNode) : Balanced (types.foldl (Coupling.couple r) c) := by
  induction types generalizing c with
  | nil => exact h
  | cons t types ih => exact ih (h.couple t)

theorem initRecord (v : Visit) : Balanced (c.initRecord v) :=
  h.congr (by cases v <;> rfl) fun id => by rw [record_initRecord]

theorem observe (e : Event) : Balanced (c.observe r e) := by
  cases e with
  | leave v => cases v <;> exact h.congr rfl fun _ => rfl
  | enter v =>
    have opened : Balanced (c.openScope v) := by
      unfold Coupling.openScope
      split
      · exact h.congr rfl fun _ => rfl
      · exact h
    have coupled := (opened.initRecord v).foldl_couple (r := r)
      (r.references (((c.openScope v).initRecord v).currentType? r) v)
    have noted := noteCall_frame ((r.references (((c.openScope v).initRecord v).currentType? r) v).foldl
      (Coupling.couple r) ((c.openScope v).initRecord v)) v
    exact coupled.congr noted.2.1 fun id => congrArg CouplingRecord.afferent (noted.2.2 id)

theorem foldl_observe (events : List Event)
    : Balanced (events.foldl (fun c e => c.observe r e) c) := by
  induction events generalizing c with
  | nil => exact h
  | cons e events ih => exact ih (h.observe e)

end Balanced

-- Open scopes

/-- Entering something opens its scope, and nothing else. -/
theorem scopes_enter (c : Coupling) (v : Visit)
    : (c.enter r v).scopes = (CouplingScope.ofVisit? v).toList ++ c.scopes := by
  have known (d : Coupling) : (d.initRecord v).scopes = d.scopes := by cases v <;> rfl
  rw [enter, (noteCall_frame _ v).1, (foldl_couple_frame _ _).1, known, openScope]
  cases CouplingScope.ofVisit? v <;> rfl

/-- The open scopes are those of the chain of open visits. Leaving a unit closes all scopes, and there
is nothing around a unit.
-/
theorem scopes_foldl_observe {chain last : List Visit} {events : List Event}
    (h : Chained chain events last) (rooted : Rooted chain)
    (same : c.scopes = chain.filterMap CouplingScope.ofVisit?)
    : (events.foldl (fun c e => c.observe r e) c).scopes = last.filterMap CouplingScope.ofVisit? := by
  induction h generalizing c with
  | nil => exact same
  | @enter v chain last events root _ ih =>
    refine ih (rooted.cons root) ?_
    refine (scopes_enter c v).trans ?_
    rw [same, List.filterMap_cons]
    cases CouplingScope.ofVisit? v <;> rfl
  | @leave v chain last events _ ih =>
    refine ih rooted.tail ?_
    cases v with
    | unit u => simp [observe, leave, rooted.unit]
    | function f | type t =>
      have tail := congrArg List.tail same
      simpa [observe, leave, closeScope, CouplingScope.ofVisit?] using tail
    | _ => exact same

end Coupling

-- Edges between types

/-- Whether a scope is one of something visited, and its code too. -/
structure ScopeCode.From (P : Visit → Prop) (s : ScopeCode) : Prop where
  scope : ∃ v, P v ∧ CouplingScope.ofVisit? v = some s.scope
  visits : ∀ v ∈ s.visits, P v

variable {v : Visit} {t : TypeNode}

namespace ScopeLog

variable {P : Visit → Prop} {l : ScopeLog}

theorem scopes_cons (top : ScopeCode) (rest : List ScopeCode) (closed : Multiset (ScopeCode × Bool))
    : scopes ⟨top :: rest, closed⟩ = top ::ₘ scopes ⟨rest, closed⟩ := by
  rw [scopes, scopes, ← Multiset.cons_coe, Multiset.cons_add]

/-- What is left stays in the log. -/
theorem scopes_step_leave (l : ScopeLog) (v : Visit) : (l.step (.leave v)).scopes = l.scopes := by
  obtain ⟨opened, closed⟩ := l
  have closed (counts : Bool)
      : (closeScope counts ⟨opened, closed⟩).scopes = scopes ⟨opened, closed⟩ := by
    cases opened with
    | nil => rfl
    | cons top rest =>
      rw [scopes_cons]
      simp [closeScope, scopes]
  cases v with
  | unit u => simp [step, scopes, add_comm, Function.comp_def]
  | function | type => exact closed _
  | _ => rfl

theorem from_openScope (h : ∀ s ∈ l.scopes, s.From P) (here : P v)
    : ∀ s ∈ (l.openScope v).scopes, s.From P := by
  unfold openScope
  split
  · rename_i scope own
    intro s member
    rw [scopes_cons] at member
    rcases Multiset.mem_cons.mp member with rfl | old
    · exact ⟨⟨v, here, own⟩, by simp⟩
    · exact h s old
  · exact h

theorem from_note (h : ∀ s ∈ l.scopes, s.From P) (here : P v)
    : ∀ s ∈ (l.note v).scopes, s.From P := by
  obtain ⟨_ | ⟨top, rest⟩, closed⟩ := l
  · exact h
  · intro s member
    rw [note, scopes_cons] at member
    rw [scopes_cons] at h
    rcases Multiset.mem_cons.mp member with rfl | old
    · have known := h top (by simp)
      refine ⟨known.scope, fun w inside => ?_⟩
      rcases List.mem_append.mp inside with before | last
      · exact known.visits w before
      · exact List.mem_singleton.mp last ▸ here
    · exact h s (Multiset.mem_cons_of_mem old)

/-- The scopes of a log come from what is entered, and so does their code. -/
theorem from_foldl_step (h : ∀ s ∈ l.scopes, s.From P) {events : List Event}
    (here : ∀ v, .enter v ∈ events → P v) : ∀ s ∈ (events.foldl step l).scopes, s.From P := by
  induction events generalizing l with
  | nil => exact h
  | cons e events ih =>
    refine ih ?_ fun v member => here v (List.mem_cons_of_mem _ member)
    cases e with
    | enter v => exact from_note (from_openScope h (here v (by simp))) (here v (by simp))
    | leave v => exact scopes_step_leave l v ▸ h

/-- The log of a walk has nothing but registered nodes. -/
theorem registered {r : Registry} {depth : Nat} {units : List CompilationUnit} {events : List Event}
    (begun : events <+: (Walk.unitsTo r depth units).events)
    : ∀ s ∈ (events.foldl step ⟨[], 0⟩).scopes, s.From (Visit.Registered r) :=
  from_foldl_step (by simp [scopes]) fun v member =>
    Walk.visits_registered r depth units v (begun.subset member)

end ScopeLog

/-- Whether an identifier is that of a class or an interface. -/
def NodeId.IsType (id : NodeId) : Prop := ∃ kind : TypeKind, id.kind? = some kind.nodeKind

/-- The identifiers of units are those of no node. -/
theorem CompilationUnit.kind?_scopeId (u : CompilationUnit) : u.scopeId.kind? = none := by
  simp [scopeId, NodeId.kind?, Text.splitLast?, NodeKind.ofTag?]

theorem Registry.typeAt_of_mem_references {r : Registry} {current : Option TypeNode}
    (h : t ∈ r.references current v) : r.typeAt t.id = t := by
  have operand {ref : ClassRef} (found : r.resolveClass? current ref = some t)
      : r.typeAt t.id = t := by
    cases ref with
    | type => exact typeAt_resolveType? found
    | dynamic => simp [resolveClass?] at found
  cases mem_references.mp h with
  | signature _ found | property _ found => exact typeAt_type? found
  | caught _ _ found => exact typeAt_resolveType? found
  | newObject found | instanceOf found | staticCall found | staticProperty found
  | classConstant found => exact operand found

section

variable {r : Registry} {l : ScopeLog}
variable (known : ∀ s ∈ l.scopes, s.From (Visit.Registered r))

include known

/-- The scope of a type in a log is that of a registered type. -/
theorem ScopeLog.Edge.source_mem {id : NodeId} (h : l.Edge r (.type id) t)
    : ∃ s, .type s ∈ r.toList ∧ s.id = id := by
  obtain ⟨code, member, scope, _⟩ := h
  obtain ⟨v, registered, own⟩ := (known code member).scope
  rw [scope] at own
  cases v with
  | type s => exact ⟨s, registered _ rfl, CouplingScope.type.inj (Option.some.inj own)⟩
  | _ => simp [CouplingScope.ofVisit?] at own

/-- Only the scope of a type has the identifier of one. -/
theorem ScopeLog.Edge.scope_eq (tidy : Tidy r) {scope : CouplingScope} (h : l.Edge r scope t)
    (type : scope.id.IsType) : scope = .type scope.id := by
  obtain ⟨code, member, rfl, _⟩ := h
  obtain ⟨v, registered, own⟩ := (known code member).scope
  obtain ⟨kind, tagged⟩ := type
  cases v with
  | unit u =>
    rw [← Option.some.inj own] at tagged
    simp [CouplingScope.id, CompilationUnit.kind?_scopeId] at tagged
  | function f =>
    obtain ⟨key, named⟩ := tidy.named _ (registered (.function f) rfl)
    have named : f.id = .ofKey key .function := named
    rw [← Option.some.inj own] at tagged
    cases kind <;> simp [CouplingScope.id, named, TypeKind.nodeKind] at tagged
  | type s =>
    rw [← Option.some.inj own]
    rfl
  | _ => simp [CouplingScope.ofVisit?] at own

/-- No edge joins a type to a relative. -/
theorem ScopeLog.Edge.unrelated {id : NodeId} (h : l.Edge r (.type id) t)
    : r.isSubtype (r.typeAt id) (r.typeAt t.id) = false
      ∧ r.isSubtype (r.typeAt t.id) (r.typeAt id) = false := by
  obtain ⟨s, there, rfl⟩ := h.source_mem known
  obtain ⟨code, _, scope, ⟨v, _, refers⟩, unrelated⟩ := h
  rw [Registry.typeAt_of_mem there, Registry.typeAt_of_mem_references refers]
  rw [scope, CouplingScope.IsRelated] at unrelated
  simp only [CouplingScope.type?, CouplingScope.typeId?, Option.bind_some,
    Registry.typeNode?_of_mem there, Option.any_some, Coupling.areRelated, Bool.or_eq_true, not_or,
    Bool.not_eq_true] at unrelated
  exact unrelated.symm

end

-- After every event

/-- After every event of a walk over bound files, the fanout is the number of scopes that depend on
types, both ends of a dependency between types are known, no type depends on a relative or on itself,
and the open scopes are those of the units, functions and types that are open, one within the other,
with as many sets of calls beside them.
-/
theorem coupling_kept_at_both_ends (files : List (SourceFile × String))
    (units : List CompilationUnit) (depth : Nat) (events : List Event)
    (begun : events <+: (Walk.unitsTo (bindAll ∅ files).2 depth units).events)
    : let r := (bindAll ∅ files).2
      let c := events.foldl (fun c e => c.observe r e) ({} : Coupling)
      c.fanout = (c.nodeIds.map fun id => (c.record id).afferent.size).sum
      ∧ (∀ s t, s.IsType → (t ∈ (c.record s).efferent ↔ s ∈ (c.record t).afferent))
      ∧ (∀ s t, t ∈ (c.record s).efferent
          → r.isSubtype (r.typeAt s) (r.typeAt t) = false
            ∧ r.isSubtype (r.typeAt t) (r.typeAt s) = false ∧ s ≠ t)
      ∧ ∃ chain, Chained [] events chain
        ∧ c.scopes = chain.filterMap CouplingScope.ofVisit? ∧ c.invokes.length = c.scopes.length := by
  intro r c
  have tidy : Tidy r := Tidy.empty.bindAll files
  have reflects := (Reflects.start r).foldl_observe events
  have known := ScopeLog.registered begun
  obtain ⟨_, whole, _⟩ := Walk.nests_unitsTo r depth units
  obtain ⟨chain, chained⟩ := whole.of_begun begun
  have scopes : c.scopes = chain.filterMap CouplingScope.ofVisit? :=
    Coupling.scopes_foldl_observe chained .nil rfl
  refine ⟨Coupling.Balanced.start.foldl_observe events, fun s t type => ?_, fun s t depends => ?_,
    chain, chained, scopes, reflects.length_invokes⟩
  · rw [reflects.edges.efferent, reflects.edges.afferent]
    constructor
    · rintro ⟨u, edge, rfl⟩
      exact ⟨.type s, u, edge, rfl, rfl⟩
    · rintro ⟨scope, u, edge, rfl, rfl⟩
      exact ⟨u, edge.scope_eq known tidy type ▸ edge, rfl⟩
  · obtain ⟨u, edge, rfl⟩ := (reflects.edges.efferent s t).mp depends
    obtain ⟨below, above⟩ := edge.unrelated known
    refine ⟨below, above, ?_⟩
    rintro rfl
    simp [Registry.isSubtype] at below

def factory : SourceFile :=
  ⟨"a.php", [.classDecl ⟨"A", .none, none, [], [.method ⟨"m", .isPublic, [], none, [],
      some [.expr (.newObject (.type (.named "B")) [])], ⟨2, 4⟩⟩], ⟨1, 5⟩⟩,
    .classDecl ⟨"B", .none, none, [], [], ⟨6, 6⟩⟩]⟩

/-- In the middle of the method the classes are coupled, and the unit and the class are open. -/
theorem coupling_kept_in_factory
    : let r := (bindAll ∅ [(factory, "")]).2
      let walk := Walk.unitsTo r 1 (bindAll ∅ [(factory, "")]).1
      let c := (walk.events.take 5).foldl (fun c e => c.observe r e) ({} : Coupling)
      walk.events.take 5 <+: walk.events
      ∧ (c.nodeIds.map fun id => (c.record id).afferent.size).sum = 1
      ∧ .classType "A" ∈ (c.record (.classType "B")).afferent
      ∧ r.isSubtype (r.typeAt (.classType "A")) (r.typeAt (.classType "B")) = false
      ∧ ∃ chain, Chained [] (walk.events.take 5) chain
        ∧ chain.filterMap CouplingScope.ofVisit? = [.type (.classType "A"), .unit ⟨"a.php#u"⟩] := by
  intro r walk c
  have begun : walk.events.take 5 <+: walk.events := List.take_prefix 5 _
  obtain ⟨fanout, both, apart, chain, chained, scopes, _⟩ :=
    coupling_kept_at_both_ends [(factory, "")] (bindAll ∅ [(factory, "")]).1 1 _ begun
  have depends : .classType "B" ∈ (c.record (.classType "A")).efferent := by decide +kernel
  refine ⟨begun, fanout.symm.trans (by decide +kernel), ?_, (apart _ _ depends).1, chain, chained, ?_⟩
  · exact (both _ _ ⟨.classType, by decide +kernel⟩).mp depends
  · exact scopes.symm.trans (by decide +kernel)

end DesignMetrics
