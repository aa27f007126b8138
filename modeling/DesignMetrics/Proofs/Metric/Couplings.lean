import DesignMetrics.Proofs.Metric.Completion
import DesignMetrics.Proofs.Metric.ScopeLog

/-! Coupling in plain files.
After the walk through bound files, a type is coupled to exactly those scopes whose own code refers to
it, and the calls are those in the code of classes and functions.
-/

namespace DesignMetrics

variable {units : List CompilationUnit} {r : Registry} {t : TypeNode} {o : Outline} {κ : Type}

@[simp] theorem type_mem_owners : .type t ∈ owners units r ↔ .type t ∈ r.toList := by
  simp only [owners, List.mem_append, List.mem_map, reduceCtorEq, and_false, exists_false, false_or,
    List.mem_filterMap]
  constructor
  · rintro ⟨n, there, own⟩
    cases n <;> simp [Owner.ofNode?] at own
    exact own ▸ there
  · intro there
    exact ⟨.type t, there, rfl⟩

/-- Whether an owner is walked through as its code says, in a scope of its own type. -/
structure Owner.Faithful (r : Registry) (D : Owner) : Prop where
  code : ∀ v, v ∈ D.walked r ↔ v ∈ D.code r
  type : D.scope.type? r = D.type?

variable {files : List SourceFile}

/-- In plain files a walk meets the code of each owner. -/
theorem Plain.faithful (plain : Plain files) (laid : Laid (Sourced files) r o)
    (top : ∀ n ∈ o.roots, n.owner? = none) {D : Owner} (member : D ∈ owners units r)
    : D.Faithful r := by
  cases D with
  | unit | function => exact ⟨fun _ => .rfl, rfl⟩
  | type t =>
    have there := type_mem_owners.mp member
    refine ⟨fun v => ?_, ?_⟩
    · simp only [Owner.walked, Owner.code, List.mem_cons, List.mem_flatMap,
        plain.mem_membersOf laid top there]
    · have found := laid.node?_eq (mem_declarations.mpr ⟨there, rfl⟩) (.refl _)
      exact congrArg (·.bind Node.type?) found

namespace Owner

variable {D : Owner}

theorem Faithful.coupledTo_iff (h : D.Faithful r)
    : ScopeCode.CoupledTo r ⟨D.scope, D.walked r⟩ t ↔ D.CoupledTo r t := by
  simp only [ScopeCode.CoupledTo, CouplingScope.IsRelated, h.type, h.code, mem_references,
    Owner.CoupledTo]
  refine and_congr_right fun _ => ?_
  cases D.type? <;> simp [Coupling.areRelated, and_comm]

theorem Faithful.signatures_eq (h : D.Faithful r)
    : (ScopeCode.mk D.scope (D.walked r)).signatures.toFinset = (D.signatures r).toFinset := by
  ext x
  simp [ScopeCode.signatures, Owner.signatures, h.code]

end Owner

/-- A walk through plain files has no fault and enters the declared nodes of the registry. -/
theorem Bound.entered_units (h : Bound files [] ∅ (units, r) o) (plain : Plain files)
    : (Walk.units r units).fault = none
      ∧ entered (Walk.units r units).events = declarations r.toList :=
  h.entered_of_direct (plain.direct h.laid h.marks.bodies)

/-- The log of the walk holds every owner with its code. -/
theorem Bound.log_units (h : Bound files [] ∅ (units, r) o) (plain : Plain files)
    : (Walk.units r units).events.foldl ScopeLog.step ⟨[], 0⟩
      = ⟨[], ((owners units r).map (Owner.logged r) : List (ScopeCode × Bool))⟩ := by
  obtain ⟨fine, order⟩ := h.entered_units plain
  have nodes : (declarations r.toList).filterMap Owner.ofNode? = r.toList.filterMap Owner.ofNode? := by
    rw [declarations, List.filterMap_filter]
    congr 1
    funext n
    cases n <;> simp [Node.isSpace, Owner.ofNode?]
  have order : entered (Walk.unitsTo r (r.size + 1) units).events = declarations r.toList := order
  rw [Walk.units, Walk.log_unitsTo fine, order, loggedNodes, nodes]
  simp [owners, Function.comp_def]

section

variable {all : List Owner} {c : Coupling}
variable (h : Reflects r ⟨[], (all.map (Owner.logged r) : List (ScopeCode × Bool))⟩ c)
variable (faithful : ∀ D ∈ all, D.Faithful r)

include faithful

/-- The edges of a log of owners are those of their code. -/
theorem edge_owners {scope : CouplingScope}
    : ScopeLog.Edge r ⟨[], (all.map (Owner.logged r) : List (ScopeCode × Bool))⟩ scope t
      ↔ ∃ D ∈ all, D.scope = scope ∧ D.CoupledTo r t := by
  simp only [ScopeLog.Edge, ScopeLog.scopes, Multiset.coe_nil, zero_add, Multiset.map_coe,
    List.map_map, Multiset.mem_coe, List.mem_map]
  constructor
  · rintro ⟨_, ⟨D, member, rfl⟩, rfl, coupled⟩
    exact ⟨D, member, rfl, (faithful D member).coupledTo_iff.mp coupled⟩
  · rintro ⟨D, member, rfl, coupled⟩
    exact ⟨_, ⟨D, member, rfl⟩, rfl, (faithful D member).coupledTo_iff.mpr coupled⟩

include h

theorem Reflects.mem_afferent {id scope : NodeId}
    : scope ∈ (c.record id).afferent
      ↔ ∃ D ∈ all, D.scope.id = scope ∧ ∃ t, D.CoupledTo r t ∧ t.id = id := by
  rw [h.edges.afferent]
  simp only [edge_owners faithful]
  constructor
  · rintro ⟨_, t, ⟨D, member, rfl, coupled⟩, rfl, rfl⟩
    exact ⟨D, member, rfl, t, coupled, rfl⟩
  · rintro ⟨D, member, rfl, t, coupled, rfl⟩
    exact ⟨_, t, ⟨D, member, rfl, coupled⟩, rfl, rfl⟩

theorem Reflects.mem_efferent {id target : NodeId}
    : target ∈ (c.record id).efferent
      ↔ ∃ s, .type s ∈ all ∧ s.id = id ∧ ∃ t, (Owner.type s).CoupledTo r t ∧ t.id = target := by
  rw [h.edges.efferent]
  simp only [edge_owners faithful]
  constructor
  · rintro ⟨t, ⟨D, member, own, coupled⟩, rfl⟩
    cases D with
    | type s => exact ⟨s, member, CouplingScope.type.inj own, t, coupled, rfl⟩
    | _ => simp [Owner.scope] at own
  · rintro ⟨s, member, rfl, t, coupled, rfl⟩
    exact ⟨t, ⟨.type s, member, rfl, coupled⟩, rfl⟩

/-- The calls are those in the code of the owners that count. -/
theorem Reflects.calls_eq
    : c.calls = ((all.filter Owner.isCounted).map fun D => (D.signatures r).toFinset.card).sum := by
  have counted : all.filter ((fun s : ScopeCode × Bool => s.2) ∘ Owner.logged r)
      = all.filter Owner.isCounted := rfl
  rw [h.calls]
  simp only [ScopeLog.calls, Multiset.filter_coe, Multiset.map_coe, Multiset.sum_coe,
    List.filter_map, List.map_map, Bool.decide_eq_true, counted]
  congr 1
  refine List.map_congr_left fun D member => ?_
  exact congrArg Finset.card (faithful D (List.mem_of_mem_filter member)).signatures_eq

end

/-- The analysis of coupling takes all events. -/
theorem Analyzer.observeAll_coupling [CacheStore κ] (events : List Event) (c : Coupling)
    : Traversal.observeAll r events (Analyzer.coupling c : Analyzer κ)
      = .ok (.coupling (events.foldl (fun c e => c.observe r e) c)) := by
  induction events generalizing c with
  | nil => rfl
  | cons e events ih => exact ih (c.observe r e)

/-- Analyses without counting come to an end if the walk does. -/
theorem Analyzer.run_fault_eq_none [CacheStore κ] {kinds : List AnalyzerKind} {cache : κ}
    (fine : (Walk.units r units).fault = none) (other : .nodeCount ∉ kinds)
    : (Analyzer.run r units kinds cache).1.fault = none := by
  refine Traversal.follow_fault_iff.mpr ⟨fine, fun a member => ?_⟩
  obtain ⟨kind, listed, rfl⟩ := List.mem_map.mp member
  refine Analyzer.observeAll_ok _ fun counts => other ?_
  have same : (Analyzer.start cache kind).kind = kind := by cases kind <;> rfl
  exact counts ▸ same.symm ▸ listed

/-- The analysis of coupling in an analysis that comes to its end has met all events. -/
theorem Analyzer.run_coupling [CacheStore κ] {kinds : List AnalyzerKind} {cache : κ}
    (fine : (Analyzer.run r units kinds cache).1.fault = none) {i : Nat}
    (here : kinds[i]? = some .coupling)
    : (Analyzer.run r units kinds cache).1.observers[i]?
      = some (.coupling ((Walk.units r units).events.foldl (fun c e => c.observe r e) {})) :=
  Analyzer.run_observer fine here (Analyzer.observeAll_coupling _ _)

/-- In plain files, the scopes that depend on a type are those of the owners which are coupled to it
by their own code, a type depends on what it is coupled to in this way, and the calls are the
signatures in the code of each class and function. The analysis comes to its end whenever nothing is
counted with it, and every analysis that comes to its end gives the same.
-/
theorem coupled_iff_owner_refers (files : List (SourceFile × String))
    (unbound : ∀ file ∈ files, file.1.Unbound) (plain : Plain (files.map Prod.fst))
    : let units := (bindAll ∅ files).1
      let r := (bindAll ∅ files).2
      ∃ c : Coupling,
        (∀ (κ : Type) [CacheStore κ] (cache : κ) (kinds : List AnalyzerKind),
          let outcome := (Analyzer.run r units kinds cache).1
          (.nodeCount ∉ kinds → outcome.fault = none)
          ∧ (outcome.fault = none
            → ∀ i : Nat, kinds[i]? = some .coupling → outcome.observers[i]? = some (.coupling c)))
        ∧ (∀ id scope, scope ∈ (c.record id).afferent
            ↔ ∃ D ∈ owners units r, D.scope.id = scope ∧ ∃ t, D.CoupledTo r t ∧ t.id = id)
        ∧ (∀ id target, target ∈ (c.record id).efferent
            ↔ ∃ s, .type s ∈ r.toList ∧ s.id = id
                ∧ ∃ t, (Owner.type s).CoupledTo r t ∧ t.id = target)
        ∧ c.calls = (((owners units r).filter Owner.isCounted).map fun D =>
            (D.signatures r).toFinset.card).sum := by
  intro units r
  obtain ⟨o, bound⟩ := bindAll_empty_bound files unbound
  obtain ⟨fine, _⟩ := bound.entered_units plain
  have faithful : ∀ D ∈ owners units r, D.Faithful r := fun D member =>
    plain.faithful bound.laid bound.marks.bodies member
  have known := (Reflects.start r).foldl_observe (Walk.units r units).events
  rw [bound.log_units plain] at known
  refine ⟨_, fun κ _ cache kinds => ⟨Analyzer.run_fault_eq_none fine,
      fun ended i here => Analyzer.run_coupling ended here⟩,
    fun id scope => known.mem_afferent faithful, fun id target => ?_, known.calls_eq faithful⟩
  rw [known.mem_efferent faithful]
  simp only [type_mem_owners]
  rfl

def entangled : SourceFile :=
  let call (name : String) : Stmt := .expr (.funcCall (.name name) [])
  let inner : Stmt := .functionDecl ⟨"f", [], none, [],
    [call "g", call "g", .expr (.newObject (.type (.named "B")) [])], ⟨3, 5⟩⟩
  let attempt : Stmt := .tryCatch [call "g"] [⟨[.named "B"], some "e", [call "h"]⟩] none
  let method : Member := .method ⟨"m", .isPublic, [], none, [],
    some [inner, .expr (.closure [] [] none [attempt])], ⟨2, 9⟩⟩
  ⟨"a.php", [.classDecl ⟨"A", .none, none, [], [method], ⟨1, 10⟩⟩,
    .classDecl ⟨"B", .none, none, [], [], ⟨11, 11⟩⟩, call "k"]⟩

/-- The function and the class have references and calls of their own, and calls outside of both do
not count. -/
theorem coupled_entangled
    : (∀ file ∈ [(entangled, "")], file.1.Unbound) ∧ Plain [entangled]
      ∧ ∃ c, (Analyzer.run (bindAll ∅ [(entangled, "")]).2 (bindAll ∅ [(entangled, "")]).1
          [.coupling] NoCache.mk).1.observers[0]? = some (.coupling c)
        ∧ (∀ scope ∈ [.classType "A", .function "f"],
            ∃ D ∈ owners (bindAll ∅ [(entangled, "")]).1 (bindAll ∅ [(entangled, "")]).2,
              D.scope.id = scope
              ∧ ∃ t, D.CoupledTo (bindAll ∅ [(entangled, "")]).2 t ∧ t.id = .classType "B")
        ∧ c.calls = 3 := by
  have unbound : ∀ file ∈ [(entangled, "")], file.1.Unbound := by decide +kernel
  have plain : Plain [entangled] := by decide +kernel
  obtain ⟨c, ran, afferent, _, calls⟩ := coupled_iff_owner_refers [(entangled, "")] unbound plain
  obtain ⟨ends, gives⟩ := ran NoCache NoCache.mk [.coupling]
  have gives := gives (ends (by decide)) 0 rfl
  have known : (Analyzer.run (bindAll ∅ [(entangled, "")]).2 (bindAll ∅ [(entangled, "")]).1
      [.coupling] NoCache.mk).1.observers[0]?.any (fun
        | .coupling c => [.classType "A", .function "f"].all fun scope =>
            decide (scope ∈ (c.record (.classType "B")).afferent)
        | _ => false) := by
    decide +kernel
  rw [gives] at known
  refine ⟨unbound, plain, c, gives, fun scope member => ?_, calls.trans (by decide +kernel)⟩
  have within := List.all_eq_true.mp known scope member
  exact (afferent _ _).mp (of_decide_eq_true within)

end DesignMetrics
