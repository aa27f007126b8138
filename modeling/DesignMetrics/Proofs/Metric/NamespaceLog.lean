import DesignMetrics.Proofs.Metric.DoubleEntry
import DesignMetrics.Proofs.Metric.NamespaceGraph

/-! Dependencies between namespaces, by scopes.
The log of scopes says what this analysis knows, too. Both analyses read one log, and so the graph of
namespaces is coarser than the graph of types and misses none of its edges.
-/

namespace DesignMetrics

-- Namespaces of nodes and scopes

def Node.spaceName : Node → String
  | space n => n.name
  | type t => t.refs.space
  | method m => m.refs.space
  | function f => f.refs.space
  | property p => p.refs.space

def Registry.spaceOf (r : Registry) (n : Node) : NodeId := (r.namespaceNamed n.spaceName).id

def DependencyScope.ofVisit? (r : Registry) : Visit → Option DependencyScope
  | .type t => some ⟨r.spaceOf (.type t), some t.id⟩
  | .function f => some ⟨r.spaceOf (.function f), none⟩
  | _ => none

namespace CouplingScope

def space? (r : Registry) : CouplingScope → Option NodeId
  | unit _ => none
  | function id | type id => (r.node? id).map r.spaceOf

def dependency? (r : Registry) (s : CouplingScope) : Option DependencyScope :=
  (s.space? r).map (⟨·, s.typeId?⟩)

end CouplingScope

variable {r : Registry} {v : Visit}

/-- The innermost scopes of both kinds belong to the same declaration, unless it is a unit. -/
theorem head?_scopes {chain : List Visit} (rooted : Rooted chain)
    (registered : ∀ v ∈ chain, v.Registered r)
    : (chain.filterMap (DependencyScope.ofVisit? r)).head?
      = (chain.filterMap CouplingScope.ofVisit?).head?.bind (CouplingScope.dependency? r) := by
  induction chain with
  | nil => rfl
  | cons v chain ih =>
    have outer := ih rooted.tail fun w member => registered w (List.mem_cons_of_mem _ member)
    have here := registered v (by simp)
    cases v with
    | unit u =>
      obtain rfl := rooted.unit
      rfl
    | type n | function n =>
      have found : r.node? n.id = some _ := Registry.node?_of_mem (here _ rfl)
      simp [DependencyScope.ofVisit?, CouplingScope.ofVisit?, CouplingScope.dependency?,
        CouplingScope.space?, CouplingScope.typeId?, found]
    | _ => exact outer

-- Dependencies in a log

def ScopeCode.Depends (r : Registry) (s : ScopeCode) (a b : NodeId) : Prop :=
  s.scope.space? r = some a
    ∧ ∃ v ∈ s.visits, ∃ t ∈ Dependency.targets r (s.scope.type? r) v, r.spaceOf (.type t) = b ∧ b ≠ a

namespace ScopeLog

variable {l : ScopeLog} {a b : NodeId}

def Depends (r : Registry) (l : ScopeLog) (a b : NodeId) : Prop := ∃ s ∈ l.scopes, s.Depends r a b

theorem depends_openScope (v : Visit) : (l.openScope v).Depends r a b ↔ l.Depends r a b := by
  unfold openScope
  split
  · simp only [Depends, scopes_cons, Multiset.mem_cons, exists_eq_or_imp]
    simp [ScopeCode.Depends]
  · rfl

theorem depends_leave (v : Visit) : (l.step (.leave v)).Depends r a b ↔ l.Depends r a b := by
  rw [Depends, Depends, scopes_step_leave]

/-- What is noted makes the namespace of the innermost scope depend on the namespaces of its targets. -/
theorem depends_note {top : ScopeCode} {rest : List ScopeCode} (opened : l.opened = top :: rest) (v : Visit)
    : (l.note v).Depends r a b
      ↔ l.Depends r a b ∨ ScopeCode.Depends r ⟨top.scope, [v]⟩ a b := by
  obtain ⟨_, closed⟩ := l
  obtain rfl := opened
  simp only [note, Depends, scopes_cons, Multiset.mem_cons, exists_eq_or_imp]
  simp only [ScopeCode.Depends, List.mem_append, List.mem_singleton, or_and_right, exists_or, and_or_left]
  grind

end ScopeLog

-- What the analysis of namespaces knows

namespace Dependency

variable {d : Dependency} {a b : NodeId}

/-- Whether the record of a namespace says that it depends on another one. -/
def Depends (d : Dependency) (a b : NodeId) : Prop := ∃ s, d.spaces[a]? = some s ∧ b ∈ s.efferent

theorem depends_touch (n : NamespaceNode) : (d.touch n).Depends a b ↔ d.Depends a b := by
  constructor
  · rintro ⟨s, found, member⟩
    rcases cases_touch found with old | ⟨_, _, rfl⟩
    · exact ⟨s, old, member⟩
    · simp at member
  · rintro ⟨s, found, member⟩
    refine ⟨s, ?_, member⟩
    rw [getElem?_touch, if_neg, found]
    rintro ⟨rfl, new⟩
    simp [Std.TreeMap.getElem?_eq_none new] at found

theorem depends_addEdge {source target : NodeId} (known : source ∈ d.spaces)
    : (d.addEdge source target).Depends a b ↔ d.Depends a b ∨ a = source ∧ b = target := by
  obtain ⟨s, found⟩ := Linked.exists_record known
  simp only [Depends, getElem?_addEdge, Option.map_eq_some_iff]
  constructor
  · rintro ⟨_, ⟨old, there, rfl⟩, member⟩
    rcases mem_ite_insert.mp member with before | new
    · exact .inl ⟨old, there, before⟩
    · exact .inr new
  · rintro (⟨old, there, member⟩ | ⟨rfl, rfl⟩)
    · exact ⟨_, ⟨old, there, rfl⟩, mem_ite_insert.mpr (.inl member)⟩
    · exact ⟨_, ⟨s, found, rfl⟩, mem_ite_insert.mpr (.inr ⟨rfl, rfl⟩)⟩

/-- Counting a type changes no dependency. -/
theorem depends_addType (n : NamespaceNode) (t : TypeNode)
    : (d.addType n t).Depends a b ↔ d.Depends a b := by
  have counted (s : NamespaceRecord) : (s.addType t).efferent = s.efferent := by
    unfold NamespaceRecord.addType
    split <;> rfl
  rw [← depends_touch (d := d) n]
  simp only [Depends, addType, Std.TreeMap.getElem?_modify, Std.LawfulEqOrd.compare_eq_iff_eq]
  split
  · rename_i same
    subst same
    simp [counted]
  · rfl

theorem dependOn_frame (t : TypeNode)
    : (d.dependOn r t).scopes = d.scopes ∧ ∀ x ∈ d.spaces, x ∈ (d.dependOn r t).spaces := by
  unfold dependOn
  split
  · exact ⟨rfl, fun _ member => member⟩
  · dsimp only
    split
    · exact ⟨rfl, fun _ member => member⟩
    · exact ⟨rfl, fun x member => mem_addEdge.mpr (mem_touch.mpr (.inr member))⟩

/-- The namespace of the innermost scope comes to depend on that of a type, unless it is the same. -/
theorem depends_dependOn {top : DependencyScope} {rest : List DependencyScope}
    (opened : d.scopes = top :: rest) (known : top.space ∈ d.spaces) (t : TypeNode)
    : (d.dependOn r t).Depends a b
      ↔ d.Depends a b ∨ a = top.space ∧ r.spaceOf (.type t) = b ∧ b ≠ a := by
  have target : (r.namespaceNamed t.refs.space).id = r.spaceOf (.type t) := rfl
  simp only [dependOn, opened, List.head?_cons, target]
  split
  · grind
  · rw [depends_addEdge (mem_touch.mpr (.inr known)), depends_touch]
    grind

theorem depends_foldl_dependOn {top : DependencyScope} {rest : List DependencyScope}
    (opened : d.scopes = top :: rest) (known : top.space ∈ d.spaces) (types : List TypeNode)
    : (types.foldl (dependOn r) d).Depends a b
      ↔ d.Depends a b ∨ a = top.space ∧ ∃ t ∈ types, r.spaceOf (.type t) = b ∧ b ≠ a := by
  induction types generalizing d with
  | nil => simp
  | cons t types ih =>
    rw [List.foldl_cons, ih ((dependOn_frame t).1.trans opened) ((dependOn_frame t).2 _ known),
      depends_dependOn opened known]
    simp only [List.mem_cons, exists_eq_or_imp]
    grind

theorem foldl_dependOn_frame (types : List TypeNode)
    : (types.foldl (dependOn r) d).scopes = d.scopes
      ∧ ∀ x ∈ d.spaces, x ∈ (types.foldl (dependOn r) d).spaces := by
  induction types generalizing d with
  | nil => exact ⟨rfl, fun _ member => member⟩
  | cons t types ih =>
    obtain ⟨scopes, spaces⟩ := ih (d := d.dependOn r t)
    exact ⟨scopes.trans (dependOn_frame t).1, fun x member => spaces x ((dependOn_frame t).2 x member)⟩

/-- Without an open scope nothing depends on anything. -/
theorem foldl_dependOn_of_nil (opened : d.scopes = []) (types : List TypeNode)
    : types.foldl (dependOn r) d = d := by
  induction types with
  | nil => rfl
  | cons t types ih =>
    have same : d.dependOn r t = d := by simp [dependOn, opened]
    rw [List.foldl_cons, same, ih]

theorem depends_prepare (v : Visit) : (d.prepare r v).Depends a b ↔ d.Depends a b := by
  cases v with
  | space n => exact depends_touch n
  | type t => exact depends_addType _ t
  | function f => exact depends_touch _
  | _ => rfl

theorem scopes_prepare (v : Visit)
    : (d.prepare r v).scopes = (DependencyScope.ofVisit? r v).toList ++ d.scopes := by
  cases v <;> rfl

theorem Opened.prepare (h : d.Opened) (v : Visit) : (d.prepare r v).Opened := by
  cases v with
  | space n => exact h.touch n
  | type t => exact (h.addType _ t).openScope (mem_addType.mpr (.inl rfl)) _
  | function f => exact (h.touch _).openScope (mem_touch.mpr (.inl rfl)) _
  | _ => exact h

/-- Whether the analysis knows what is in a log, and both have open what is in a chain of visits. -/
structure Follows (r : Registry) (chain : List Visit) (l : ScopeLog) (d : Dependency) : Prop where
  logged : l.opened.map ScopeCode.scope = chain.filterMap CouplingScope.ofVisit?
  scopes : d.scopes = chain.filterMap (DependencyScope.ofVisit? r)
  opened : d.Opened
  depends : ∀ a b, d.Depends a b ↔ l.Depends r a b

namespace Follows

variable {chain : List Visit} {l : ScopeLog}

theorem start (r : Registry) : Follows r [] ⟨[], 0⟩ {} where
  logged := rfl
  scopes := rfl
  opened := by simp [Opened]
  depends := by simp [Dependency.Depends, ScopeLog.Depends, ScopeLog.scopes]

theorem prepare (h : Follows r chain l d) (v : Visit)
    : Follows r (v :: chain) (l.openScope v) (d.prepare r v) where
  logged := by
    rw [List.filterMap_cons, ← h.logged, ScopeLog.openScope]
    cases CouplingScope.ofVisit? v <;> rfl
  scopes := by
    rw [scopes_prepare, h.scopes, List.filterMap_cons]
    cases DependencyScope.ofVisit? r v <;> rfl
  opened := h.opened.prepare v
  depends a b := by rw [depends_prepare, ScopeLog.depends_openScope, h.depends]

/-- What is entered is noted with its targets. -/
theorem note (h : Follows r chain l d) (rooted : Rooted chain)
    (registered : ∀ v ∈ chain, v.Registered r) (v : Visit)
    : Follows r chain (l.note v) ((targets r (d.currentType? r) v).foldl (dependOn r) d) := by
  have innermost := head?_scopes rooted registered
  rw [← h.scopes, ← h.logged] at innermost
  obtain ⟨scopes, spaces⟩ := foldl_dependOn_frame (r := r) (d := d) (targets r (d.currentType? r) v)
  refine ⟨?_, scopes.trans h.scopes, h.opened.mono (scopes ▸ List.Subset.refl _) spaces, fun a b => ?_⟩
  · rw [← h.logged, ScopeLog.note]
    split <;> simp_all
  cases opened : l.opened with
  | nil =>
    rw [opened] at innermost
    have none_open : d.scopes = [] := by simpa using innermost
    rw [foldl_dependOn_of_nil none_open, h.depends, ScopeLog.note, opened]
  | cons top rest =>
    rw [opened] at innermost
    simp only [List.map_cons, List.head?_cons, Option.bind_some, CouplingScope.dependency?] at innermost
    rw [ScopeLog.depends_note opened, ScopeCode.Depends]
    cases space : top.scope.space? r with
    | none =>
      have none_open : d.scopes = [] := by simpa [space] using innermost
      simp [foldl_dependOn_of_nil none_open, h.depends]
    | some own =>
      obtain ⟨outer, at_d⟩ := List.head?_eq_some_iff.mp (by simpa [space] using innermost)
      have current : d.currentType? r = top.scope.type? r := by
        simp [currentType?, at_d, CouplingScope.type?]
      rw [depends_foldl_dependOn at_d (h.opened _ (by simp [at_d])), h.depends, current]
      simp [eq_comm]

theorem enter (h : Follows r chain l d) (rooted : Rooted (v :: chain))
    (registered : ∀ w ∈ v :: chain, w.Registered r)
    : Follows r (v :: chain) (l.step (.enter v)) (d.observe r (.enter v)) :=
  (h.prepare v).note rooted registered v

theorem leave (h : Follows r (v :: chain) l d) (rooted : Rooted (v :: chain))
    : Follows r chain (l.step (.leave v)) (d.observe r (.leave v)) := by
  have depends (a b : NodeId) : (d.observe r (.leave v)).Depends a b
      ↔ (l.step (.leave v)).Depends r a b := by
    rw [ScopeLog.depends_leave, ← h.depends]
    cases v <;> rfl
  have logged := h.logged
  have scopes := h.scopes
  cases v with
  | unit u =>
    obtain rfl := rooted.unit
    exact ⟨rfl, rfl, h.opened.mono (List.nil_subset _) fun _ => id, depends⟩
  | function f | type t =>
    refine ⟨?_, ?_, h.opened.mono (List.tail_subset _) fun _ => id, depends⟩
    · obtain ⟨_ | ⟨top, rest⟩, closed⟩ := l
      · simp [CouplingScope.ofVisit?] at logged
      · exact (List.cons.inj logged).2
    · exact congrArg List.tail scopes
  | _ => exact ⟨logged, scopes, h.opened, depends⟩

/-- The analysis stays in step with the log through events that lead from one chain to another. -/
theorem foldl_observe {last : List Visit} {events : List Event} (path : Chained chain events last)
    (h : Follows r chain l d) (rooted : Rooted chain) (registered : ∀ v ∈ chain, v.Registered r)
    (entered : ∀ v, .enter v ∈ events → v.Registered r)
    : Follows r last (events.foldl ScopeLog.step l) (events.foldl (fun d e => d.observe r e) d) := by
  induction path generalizing l d with
  | nil => exact h
  | @enter v chain last events root _ ih =>
    have here : ∀ w ∈ v :: chain, w.Registered r := by
      intro w member
      rcases List.mem_cons.mp member with rfl | outer
      · exact entered w (by simp)
      · exact registered w outer
    exact ih (h.enter (rooted.cons root) here) (rooted.cons root) here fun w member =>
      entered w (List.mem_cons_of_mem _ member)
  | leave _ ih =>
    exact ih (h.leave rooted) rooted.tail (fun w member => registered w (List.mem_cons_of_mem _ member))
      fun w member => entered w (List.mem_cons_of_mem _ member)

end Follows

end Dependency

-- Both analyses on one walk

/-- What something refers to is among its targets. -/
theorem Registry.mem_targets {current : Option TypeNode} {t : TypeNode}
    (h : t ∈ r.references current v) : t ∈ Dependency.targets r current v := by
  cases v with
  | type s => simp [references] at h
  | _ => exact h

/-- A scope with the identifier of a registered node belongs to its namespace. -/
theorem ScopeCode.From.space?_eq {code : ScopeCode} (h : code.From (Visit.Registered r))
    (tidy : Tidy r) {s : Node} (there : s ∈ r.toList) (same : code.scope.id = s.id)
    : code.scope.space? r = some (r.spaceOf s) := by
  obtain ⟨v, registered, own⟩ := h.scope
  have found : r.node? code.scope.id = some s := same ▸ Registry.node?_of_mem there
  cases v with
  | unit u =>
    obtain ⟨key, named⟩ := tidy.named s there
    rw [← Option.some.inj own] at same
    have kind := congrArg NodeId.kind? (same.trans named)
    simp [CouplingScope.id, CompilationUnit.kind?_scopeId] at kind
  | function f | type t =>
    rw [← Option.some.inj own] at found ⊢
    exact congrArg (Option.map r.spaceOf) found
  | _ => simp [CouplingScope.ofVisit?] at own

/-- The graph of namespaces abstracts the graph of types. After every event of a walk over bound
files, if a type has the scope of a declaration among those that depend on it, then the namespace of
the declaration is that of the type, or depends on it.
-/
theorem couplings_lift_to_namespaces (files : List (SourceFile × String))
    (units : List CompilationUnit) (depth : Nat) (events : List Event)
    (begun : events <+: (Walk.unitsTo (bindAll ∅ files).2 depth units).events)
    : let r := (bindAll ∅ files).2
      let c := events.foldl (fun c e => c.observe r e) ({} : Coupling)
      let d := events.foldl (fun d e => d.observe r e) ({} : Dependency)
      ∀ t, ∀ s ∈ r.toList, s.id ∈ (c.record t).afferent
        → r.spaceOf s = r.spaceOf (.type (r.typeAt t))
          ∨ d.Depends (r.spaceOf s) (r.spaceOf (.type (r.typeAt t))) := by
  intro r c d t s there depends
  have entered : ∀ v, .enter v ∈ events → v.Registered r := fun v member =>
    Walk.visits_registered r depth units v (begun.subset member)
  obtain ⟨_, whole, _⟩ := Walk.nests_unitsTo r depth units
  obtain ⟨chain, chained⟩ := whole.of_begun begun
  have reflects := (Reflects.start r).foldl_observe events
  have follows := (Dependency.Follows.start r).foldl_observe chained .nil (by simp) entered
  obtain ⟨_, u, ⟨code, logged, rfl, ⟨v, noted, refers⟩, _⟩, same, rfl⟩ :=
    (reflects.edges.afferent t s.id).mp depends
  have own := (ScopeLog.registered begun code logged).space?_eq (Tidy.empty.bindAll files) there same
  rw [Registry.typeAt_of_mem_references refers]
  by_cases equal : r.spaceOf (.type u) = r.spaceOf s
  · exact .inl equal.symm
  · refine .inr ((follows.depends _ _).mpr ⟨code, logged, own, v, noted, u, ?_, rfl, equal⟩)
    exact Registry.mem_targets refers

/-- The class in the one namespace makes an object of a class in the other. -/
theorem couplings_lift_across
    : let r := (bindAll ∅ [(across, "")]).2
      let walk := Walk.unitsTo r 1 (bindAll ∅ [(across, "")]).1
      let c := walk.events.foldl (fun c e => c.observe r e) ({} : Coupling)
      let d := walk.events.foldl (fun d e => d.observe r e) ({} : Dependency)
      .classType "App\\A" ∈ (c.record (.classType "Lib\\B")).afferent
      ∧ d.Depends (.space "App") (.space "Lib") := by
  intro r walk c d
  have depends : .classType "App\\A" ∈ (c.record (.classType "Lib\\B")).afferent := by decide +kernel
  obtain ⟨s, found⟩ : ∃ s, r.node? (.classType "App\\A") = some s :=
    Option.isSome_iff_exists.mp (by decide +kernel)
  have same : s.id = .classType "App\\A" := by
    have id : (r.node? (.classType "App\\A")).map Node.id = some (.classType "App\\A") := by
      decide +kernel
    simpa [found] using id
  have home : r.spaceOf s = .space "App" := by
    have space : (r.node? (.classType "App\\A")).map r.spaceOf = some (.space "App") := by
      decide +kernel
    simpa [found] using space
  have target : r.spaceOf (.type (r.typeAt (.classType "Lib\\B"))) = .space "Lib" := by
    decide +kernel
  have lifted := couplings_lift_to_namespaces [(across, "")] (bindAll ∅ [(across, "")]).1 1 _
    (List.prefix_refl walk.events) (.classType "Lib\\B") s (Registry.alike_of_node? found).1
    (same ▸ depends)
  rw [home, target] at lifted
  exact ⟨depends, lifted.resolve_left (by decide +kernel)⟩

end DesignMetrics
