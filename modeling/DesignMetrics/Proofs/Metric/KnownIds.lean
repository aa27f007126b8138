import DesignMetrics.Proofs.Run.InputOrder

/-! What analyzers know.
An analyzer that has walked through bound files knows an identifier only as it is registered, or in a
spelling of something that is not registered at all.
-/

namespace DesignMetrics

variable {r : Registry} {id : NodeId}

theorem Registry.isSpelling_of_mem {n : Node} (h : n ∈ r.toList) : r.IsSpelling n.id :=
  .inl (mem_spellingsOf.mpr ⟨List.mem_map_of_mem h, .refl _⟩)

theorem Registry.spellingsOf_eq_nil_iff : r.spellingsOf id = [] ↔ r.node? id = none := by
  rw [← not_iff_not, ← ne_eq, ← ne_eq, Option.ne_none_iff_isSome, node?_isSome_iff]
  constructor
  · intro spelled
    obtain ⟨_, member⟩ := List.exists_mem_of_ne_nil _ spelled
    obtain ⟨known, alike⟩ := mem_spellingsOf.mp member
    obtain ⟨n, there, rfl⟩ := List.mem_map.mp known
    exact ⟨n, there, alike⟩
  · rintro ⟨n, there, alike⟩
    exact List.ne_nil_of_mem (mem_spellingsOf.mpr ⟨List.mem_map_of_mem there, alike⟩)

/-- A type that its identifier stands for has a spelling that is registered, or is a placeholder for
something that is not.
-/
theorem Tidy.isSpelling_of_typeAt (h : Tidy r) {t : TypeNode} (standing : r.typeAt t.id = t)
    : r.IsSpelling t.id := by
  rcases Registry.typeAt_cases standing with there | ⟨missing, name, kind, rfl⟩
  · exact Registry.isSpelling_of_mem there
  · have nothing := h.node?_eq_none_of_typeNode? missing
    exact .inr (Registry.spellingsOf_eq_nil_iff.mpr nothing)

/-- In such a spelling an identifier is declared if and only if it is registered. -/
theorem Tidy.isDeclared_iff_mem (h : Tidy r) (spelling : r.IsSpelling id)
    : r.isDeclared id ↔ id ∈ r.toList.map Node.id := by
  rw [Registry.isDeclared_iff h.own]
  constructor
  · rintro ⟨n, member, alike⟩
    have other : n.id ∈ r.spellingsOf id :=
      Registry.mem_spellingsOf.mpr ⟨List.mem_map_of_mem member, alike⟩
    exact (Registry.mem_spellingsOf.mp (spelling.resolve_right (List.ne_nil_of_mem other))).1
  · intro member
    obtain ⟨n, there, rfl⟩ := List.mem_map.mp member
    exact ⟨n, there, .refl _⟩

/-- Methods and functions are declarations. -/
theorem Callable.entered?_of_ofVisit? {v : Visit} {callable : Callable}
    (h : Callable.ofVisit? v = some callable)
    : ∃ n, (Event.enter v).entered? = some n ∧ n.id = callable.id := by
  cases v with
  | method | function =>
    obtain rfl := Option.some.inj h
    exact ⟨_, rfl, rfl⟩
  | _ => simp [Callable.ofVisit?] at h

namespace Complexity

variable {κ : Type} [CacheStore κ] {c : Complexity κ} {P : NodeId → Prop}

/-- Whether all callables that are being walked have a property, and all that have a record. -/
structure All (P : NodeId → Prop) (c : Complexity κ) : Prop where
  frames : ∀ frame ∈ c.frames, P frame.id
  records : ∀ id ∈ c.records, P id

/-- A callable gets its record when it is left, and it has been entered before. -/
theorem All.observe (h : All P c) {e : Event}
    (callables : ∀ v callable, e = .enter v → Callable.ofVisit? v = some callable → P callable.id)
    : All P (c.observe e) := by
  cases e with
  | enter v =>
    rw [Complexity.observe]
    cases called : Callable.ofVisit? v with
    | some callable =>
      refine ⟨fun frame member => ?_, h.records⟩
      rcases List.mem_cons.mp member with rfl | old
      · exact callables v callable rfl called
      · exact h.frames frame old
    | none =>
      simp only
      unfold addRecord
      split
      · rename_i top rest opened
        split
        · exact h
        · refine ⟨fun frame member => ?_, h.records⟩
          rcases List.mem_cons.mp member with rfl | old
          · exact h.frames top (by simp [opened])
          · exact h.frames frame (by simp [opened, old])
      · exact h
  | leave v =>
    rw [Complexity.observe]
    split
    · unfold leaveCallable
      split
      · rename_i top rest opened
        refine ⟨fun frame member => h.frames frame (by simp [opened, show frame ∈ rest from member]),
          fun id member => ?_⟩
        rcases Std.TreeMap.mem_insert.mp member with same | old
        · exact Std.LawfulEqOrd.compare_eq_iff_eq.mp same ▸ h.frames top (by simp [opened])
        · exact h.records id old
      · exact h
    · exact h

theorem All.foldl_observe (h : All P c) {events : List Event}
    (callables : ∀ v callable, .enter v ∈ events → Callable.ofVisit? v = some callable → P callable.id)
    : All P (events.foldl (fun c e => c.observe e) c) := by
  induction events generalizing c with
  | nil => exact h
  | cons e events ih =>
    exact ih (h.observe fun v callable same => callables v callable (by simp [same]))
      fun v callable member => callables v callable (List.mem_cons_of_mem _ member)

end Complexity

section

variable {files : List (SourceFile × String)} {units : List CompilationUnit}

/-- Types are coupled as they are entered or referred to. -/
theorem Coupling.isSpelling_of_mem_records
    : let r := (bindAll ∅ files).2
      id ∈ (Coupling.after r (Walk.units r units).events).records → r.IsSpelling id := by
  intro r member
  have tidy : Tidy r := Tidy.empty.bindAll files
  have registered := Walk.visits_registered r (r.size + 1) units
  have edges := ((Reflects.start r).foldl_observe (Walk.units r units).events).edges
  rcases (Records.start.foldl_observe (r := r) (Walk.units r units).events id).mp member
    with (no | ⟨t, entered, rfl⟩) | ⟨scope, depends⟩ | ⟨target, depends⟩
  · exact no.elim
  · exact Registry.isSpelling_of_mem (registered _ entered (.type t) rfl)
  · obtain ⟨_, t, ⟨code, _, _, ⟨v, _, refers⟩, _⟩, _, rfl⟩ := (edges.afferent id scope).mp depends
    exact tidy.isSpelling_of_typeAt (Registry.typeAt_of_mem_references refers)
  · obtain ⟨t, edge, _⟩ := (edges.efferent id target).mp depends
    obtain ⟨s, there, rfl⟩ := edge.source_mem (ScopeLog.registered (List.prefix_refl _))
    exact Registry.isSpelling_of_mem there

/-- After a walk over bound files an analyzer is of the kind that it was, and knows identifiers only
as they are registered, or of what is not registered in any spelling.
-/
theorem Analyzer.After.known {kind : AnalyzerKind} {a : Analyzer NoCache}
    (h : Analyzer.After (units, (bindAll ∅ files).2) kind a)
    : a.kind = kind ∧ ∀ id ∈ a.nodeIds, (bindAll ∅ files).2.IsSpelling id := by
  generalize bound : (bindAll ∅ files).2 = r at h
  have tidy : Tidy r := bound ▸ Tidy.empty.bindAll files
  have yields := Registry.isSpelling_namespaceNamed tidy.named
  have registered := Walk.visits_registered r (r.size + 1) units
  have spaces (n : NamespaceNode) (member : .enter (.space n) ∈ (Walk.units r units).events)
      : r.IsSpelling n.id :=
    Walk.visits_spaces (fun _ there => Registry.isSpelling_of_mem there) yields _ units _ member n rfl
  rw [Analyzer.After] at h
  cases kind with
  | coupling =>
    rw [start, observeAll_coupling] at h
    obtain rfl := Except.ok.inj h
    refine ⟨rfl, fun id member => ?_⟩
    subst bound
    exact Coupling.isSpelling_of_mem_records (Std.TreeMap.mem_keys.mp member)
  | nodeCount =>
    obtain ⟨c, counted, rfl⟩ := eq_nodeCount_of_observeAll h
    have types (t : TypeNode) (member : .enter (.type t) ∈ (Walk.units r units).events)
        : r.IsSpelling t.id := Registry.isSpelling_of_mem (registered _ member (.type t) rfl)
    refine ⟨rfl, fun id member => ?_⟩
    obtain ⟨e, taken, made⟩ :=
      ((NodeCount.mem_foldlM_observe counted).mp (Std.TreeMap.mem_keys.mp member)).resolve_left (by simp)
    exact NodeCount.all_recorded yields (fun n enters => spaces n (enters ▸ taken))
      (fun t enters => types t (enters ▸ taken)) id made
  | complexity =>
    rw [start, observeAll_complexity] at h
    obtain rfl := Except.ok.inj h
    have callables (v : Visit) (callable : Callable) (member : .enter v ∈ (Walk.units r units).events)
        (called : Callable.ofVisit? v = some callable) : r.IsSpelling callable.id := by
      obtain ⟨n, enters, same⟩ := Callable.entered?_of_ofVisit? called
      exact same ▸ Registry.isSpelling_of_mem (registered v member n enters)
    have all : Complexity.All r.IsSpelling _ :=
      Complexity.All.foldl_observe (c := { cache := NoCache.mk }) ⟨by simp, by simp⟩ callables
    exact ⟨rfl, fun id member => all.records id (Std.TreeMap.mem_keys.mp member)⟩
  | dependency =>
    rw [start, observeAll_dependency] at h
    obtain rfl := Except.ok.inj h
    refine ⟨rfl, fun id member => ?_⟩
    exact Dependency.all_foldl_observe yields spaces (by simp) id (Std.TreeMap.mem_keys.mp member)

end

end DesignMetrics
