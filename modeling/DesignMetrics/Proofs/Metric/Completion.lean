import DesignMetrics.Metric.Analyzer
import DesignMetrics.Proofs.Traversal.FirstVisits
import DesignMetrics.Proofs.Traversal.Observers
import DesignMetrics.Proofs.Traversal.Termination

/-! When an analysis of bound files comes to its end.
The only analyzer that refuses an event is the one that counts methods by their type: it looks the type
up by its name and needs to have met it. A name stands for an interface if there is one, so a method of
a class is refused if an interface with the name of the class comes later.
-/

namespace DesignMetrics

def Counted (r : Registry) : List Node → List Node → Prop
  | _, [] => True
  | seen, n :: rest =>
    (∀ m, n = .method m → ∃ d t, r.type? m.refs.declaringType = some d ∧ .type t ∈ seen ∧ t.id = d.id)
      ∧ Counted r (seen ++ [n]) rest

variable {r : Registry} {e : Event} {events : List Event} {κ : Type}

theorem counted_iff {seen l : List Node}
    : Counted r seen l
      ↔ ∀ before m after, l = before ++ .method m :: after
        → ∃ d t, r.type? m.refs.declaringType = some d ∧ .type t ∈ seen ++ before ∧ t.id = d.id := by
  induction l generalizing seen with
  | nil => simp [Counted]
  | cons n rest ih =>
    rw [Counted, ih]
    constructor
    · rintro ⟨first, later⟩ before m after split
      rcases List.cons_eq_append_iff.mp split with ⟨rfl, here⟩ | ⟨before, rfl, rfl⟩
      · simpa using first m (List.cons.inj here).1.symm
      · simpa using later before m after rfl
    · intro all
      refine ⟨fun m same => ?_, fun before m after split => ?_⟩
      · simpa using all [] m rest (by simp [same])
      · simpa using all (n :: before) m after (by simp [split])

variable {t : TypeNode}

namespace NodeCount

variable {c c' : NodeCount} {id : NodeId}

theorem mem_touch {n : NamespaceNode} : id ∈ (c.touch n).records ↔ id = n.id ∨ id ∈ c.records := by
  unfold touch
  split
  · rename_i known
    constructor
    · exact .inr
    · rintro (rfl | there)
      · exact known
      · exact there
  · simp [Std.TreeMap.mem_insert, eq_comm (a := id)]

theorem mem_bump {n : NamespaceNode} {add : NodeCountRecord → NodeCountRecord}
    : id ∈ (c.bump n add).records ↔ id = n.id ∨ id ∈ c.records := by
  simp [bump, Std.TreeMap.mem_modify, mem_touch]

def recorded (r : Registry) : Event → List NodeId
  | .enter (.space n) => [n.id]
  | .enter (.type t) => [t.id, (r.namespaceNamed t.refs.space).id]
  | .enter (.method m) => [(r.namespaceNamed m.refs.space).id]
  | .enter (.function f) => [(r.namespaceNamed f.refs.space).id]
  | _ => []

/-- Records stay, and what an event adds to them is known from the event. -/
theorem mem_observe (step : c.observe r e = .ok c')
    : id ∈ c'.records ↔ id ∈ c.records ∨ id ∈ recorded r e := by
  unfold observe at step
  split at step
  · obtain rfl := Except.ok.inj step
    simp [mem_touch, recorded, or_comm]
  · obtain rfl := Except.ok.inj step
    unfold enterType
    split <;>
      simp only [mem_bump, initType, Std.TreeMap.mem_insert, Std.LawfulEqOrd.compare_eq_iff_eq, recorded,
        List.mem_cons] <;>
      grind
  · obtain ⟨_, _, _, rfl⟩ := enterMethod_ok step
    simp [mem_bump, Std.TreeMap.mem_modify, recorded, or_comm]
  · obtain rfl := Except.ok.inj step
    simp [mem_bump, recorded, or_comm]
  · obtain rfl := Except.ok.inj step
    unfold recorded
    split <;> simp_all

theorem foldlM_cons_ok (run : (e :: events).foldlM (fun c e => c.observe r e) c = .ok c')
    : ∃ next, c.observe r e = .ok next ∧ events.foldlM (fun c e => c.observe r e) next = .ok c' := by
  rw [List.foldlM_cons] at run
  cases step : c.observe r e with
  | error fault =>
    rw [step] at run
    cases run
  | ok next =>
    rw [step] at run
    exact ⟨next, rfl, run⟩

theorem mem_foldlM_observe (run : events.foldlM (fun c e => c.observe r e) c = .ok c')
    : id ∈ c'.records ↔ id ∈ c.records ∨ ∃ e ∈ events, id ∈ recorded r e := by
  induction events generalizing c with
  | nil =>
    obtain rfl := Except.ok.inj run
    simp
  | cons e events ih =>
    obtain ⟨next, step, rest⟩ := foldlM_cons_ok run
    rw [ih rest, mem_observe step]
    simp [or_assoc]

/-- Types and namespaces get records as they are entered, and namespaces also as the registry yields
them.
-/
theorem all_recorded {P : NodeId → Prop} (yields : ∀ name, P (r.namespaceNamed name).id)
    (spaces : ∀ n, e = .enter (.space n) → P n.id) (types : ∀ t, e = .enter (.type t) → P t.id)
    : ∀ id ∈ recorded r e, P id := by
  unfold recorded
  split <;> simp_all

/-- Apart from namespaces, records are made for types only. -/
theorem mem_recorded_iff (yields : ∀ name, (r.namespaceNamed name).id.kind? = some .space)
    (spaces : ∀ n, e = .enter (.space n) → n.id.kind? = some .space) (other : id.kind? ≠ some .space)
    : id ∈ recorded r e ↔ ∃ t, e.entered? = some (.type t) ∧ t.id = id := by
  have apart {x : NodeId} (space : x.kind? = some .space) : id ≠ x := by
    rintro rfl
    exact other space
  unfold recorded
  split
  · simp [apart (spaces _ rfl), Event.entered?]
  · simp [apart (yields _), Event.entered?, eq_comm (a := id)]
  · simp [apart (yields _), Event.entered?]
  · simp [apart (yields _), Event.entered?]
  · unfold Event.entered?
    split <;> simp_all

/-- An event is refused if it enters a method whose type has no record. -/
theorem observe_ok_iff
    : (∃ c', c.observe r e = .ok c')
      ↔ ∀ m, e.entered? = some (.method m)
        → ∃ d, r.type? m.refs.declaringType = some d ∧ d.id ∈ c.records := by
  cases e with
  | leave v => simp [observe, Event.entered?]
  | enter v =>
    cases v with
    | method m =>
      simp only [observe, enterMethod, Event.entered?, Option.some.injEq, Node.method.injEq,
        forall_eq']
      cases type : r.type? m.refs.declaringType with
      | none => simp
      | some d => by_cases known : d.id ∈ c.records <;> simp [known]
    | _ => simp [observe, Event.entered?]

end NodeCount

def Visit.IsNamed : Visit → Prop
  | .space n => n.id.kind? = some .space
  | _ => True

section

variable [CacheStore κ]

/-- Counting comes to its end if the types of all methods that are entered have been entered. -/
theorem Analyzer.nodeCount_ok_iff {seen : List Node} {c : NodeCount}
    (spaces : ∀ name, (r.namespaceNamed name).id.kind? = some .space)
    (types : ∀ name d, r.type? name = some d → d.id.kind? ≠ some .space)
    (named : ∀ v, .enter v ∈ events → v.IsNamed)
    (records : ∀ id, id.kind? ≠ some .space → (id ∈ c.records ↔ ∃ t, .type t ∈ seen ∧ t.id = id))
    : (∃ a, Traversal.observeAll r events (Analyzer.nodeCount c : Analyzer κ) = .ok a)
      ↔ Counted r seen (entered events) := by
  induction events generalizing seen c with
  | nil => simp [Traversal.observeAll, Counted]
  | cons e events ih =>
    have later := fun v member => named v (List.mem_cons_of_mem e member)
    -- The event itself is accepted if the method that it may enter can be counted.
    have here : (∃ c', c.observe r e = .ok c')
        ↔ ∀ m, e.entered? = some (.method m)
          → ∃ d t, r.type? m.refs.declaringType = some d ∧ .type t ∈ seen ∧ t.id = d.id := by
      rw [NodeCount.observe_ok_iff]
      refine forall_congr' fun m => imp_congr_right fun _ => exists_congr fun d => ?_
      constructor
      · rintro ⟨found, known⟩
        obtain ⟨t, member, same⟩ := (records d.id (types _ d found)).mp known
        exact ⟨t, found, member, same⟩
      · rintro ⟨t, found, member, same⟩
        exact ⟨found, (records d.id (types _ d found)).mpr ⟨t, member, same⟩⟩
    have split : Counted r seen (entered (e :: events))
        ↔ (∀ m, e.entered? = some (.method m)
            → ∃ d t, r.type? m.refs.declaringType = some d ∧ .type t ∈ seen ∧ t.id = d.id)
          ∧ Counted r (seen ++ e.entered?.toList) (entered events) := by
      rw [entered_cons]
      cases e.entered? with
      | none => simp
      | some n => simp [Counted]
    rw [split, ← here, Traversal.observeAll]
    cases step : c.observe r e with
    | error cause =>
      have refused : Observer.observe r e (Analyzer.nodeCount c : Analyzer κ) = .error cause := by
        simp [Observer.observe, Analyzer.observe, step, Except.map]
      simp [refused, Except.bind]
    | ok c' =>
      have taken : Observer.observe r e (Analyzer.nodeCount c : Analyzer κ)
          = .ok (.nodeCount c') := by
        simp [Observer.observe, Analyzer.observe, step, Except.map]
      have records' : ∀ id, id.kind? ≠ some .space
          → (id ∈ c'.records ↔ ∃ t, .type t ∈ seen ++ e.entered?.toList ∧ t.id = id) := by
        intro id other
        have own (n : NamespaceNode) (enters : e = .enter (.space n)) : n.id.kind? = some .space :=
          named (.space n) (by simp [enters])
        rw [NodeCount.mem_observe step, NodeCount.mem_recorded_iff spaces own other, records id other,
          ← exists_or]
        simp only [List.mem_append, Option.mem_toList, or_and_right]
      simpa [taken, Except.bind] using ih later records'

end

section

variable {source : String → Part → Prop} {o : Outline}

section

variable (laid : Laid source r o)

include laid

/-- The identifiers of namespaces are those of namespaces. -/
theorem Laid.kind?_namespaceNamed (name : String)
    : (r.namespaceNamed name).id.kind? = some .space := by
  unfold Registry.namespaceNamed
  split
  · rename_i n found
    obtain ⟨key, named⟩ := laid.named _ (Registry.alike_of_node? found).1
    have id : n.id = .ofKey key .space := named
    simp [id]
  · simp [NamespaceNode.placeholder, NodeId.space]

variable {name : String}

/-- A type that is found by its kind and name has this kind and a name like it. -/
theorem Laid.typeNode?_cases {kind : TypeKind}
    (found : r.typeNode? (.ofKey name kind.nodeKind) = some t)
    : .type t ∈ r.toList ∧ t.kind = kind ∧ t.id.Alike (.ofKey name kind.nodeKind) := by
  obtain ⟨y, at_y, type⟩ := Option.bind_eq_some_iff.mp found
  obtain ⟨there, alike⟩ := Registry.alike_of_node? at_y
  obtain ⟨key, named⟩ := laid.named y there
  cases y with
  | type u =>
    obtain rfl : u = t := by simpa [Node.type?] using type
    refine ⟨there, ?_, alike⟩
    rw [named] at alike
    have kinds := alike.kind_eq
    cases at_u : u.kind <;> cases kind <;> simp_all [Node.kind, TypeKind.nodeKind]
  | _ => simp [Node.type?] at type

/-- The identifier of a type is made of its name and its kind. -/
theorem Laid.type_id (there : .type t ∈ r.toList)
    : t.id = .ofKey t.qualifiedName t.kind.nodeKind := by
  obtain ⟨key, named⟩ := laid.named _ there
  have id : t.id = .ofKey key t.kind.nodeKind := named
  simp [TypeNode.qualifiedName, id]

/-- A type is found by its kind and any spelling of its name. -/
theorem Laid.typeNode?_eq (there : .type t ∈ r.toList)
    (same : Text.lower t.qualifiedName = Text.lower name)
    : r.typeNode? (.ofKey name t.kind.nodeKind) = some t := by
  have alike : (Node.type t).id.Alike (.ofKey name t.kind.nodeKind) := by
    rw [show (Node.type t).id = t.id from rfl, laid.type_id there, NodeId.alike_ofKey_iff]
    refine ⟨rfl, .inr ⟨?_, same⟩⟩
    cases t.kind <;> simp [TypeKind.nodeKind]
  rw [Registry.typeNode?, laid.node?_eq (mem_declarations.mpr ⟨there, rfl⟩) alike]
  rfl

/-- The name of an interface stands for it, in any spelling. -/
theorem Laid.type?_of_interface {i : TypeNode} (there : .type i ∈ r.toList)
    (kind : i.kind = .interfaceType) (some_name : name.isEmpty = false)
    (same : Text.lower i.qualifiedName = Text.lower name) : r.type? name = some i := by
  have found := laid.typeNode?_eq there same
  rw [kind] at found
  have found : r.typeNode? (.interfaceType name) = some i := found
  simp [Registry.type?, some_name, found]

/-- The name of a type stands for the type itself, or for an interface if it is a class. -/
theorem Laid.type?_cases (there : .type t ∈ r.toList) (some_name : t.qualifiedName.isEmpty = false)
    : ∃ d, r.type? t.qualifiedName = some d ∧ .type d ∈ r.toList
      ∧ (d = t ∨ t.kind = .classType ∧ d.kind = .interfaceType
          ∧ Text.lower t.qualifiedName = Text.lower d.qualifiedName) := by
  have own := laid.typeNode?_eq there rfl
  cases kind : t.kind with
  | interfaceType => exact ⟨t, laid.type?_of_interface there kind some_name rfl, there, .inl rfl⟩
  | classType =>
    rw [kind] at own
    cases found : r.typeNode? (.ofKey t.qualifiedName TypeKind.interfaceType.nodeKind) with
    | some d =>
      obtain ⟨there', kind', alike⟩ := laid.typeNode?_cases found
      have found : r.typeNode? (.interfaceType t.qualifiedName) = some d := found
      refine ⟨d, by simp [Registry.type?, some_name, found], there', .inr ⟨rfl, kind', ?_⟩⟩
      rw [laid.type_id there', NodeId.alike_ofKey_iff] at alike
      exact (alike.2.elim (fun keys => by rw [keys]) fun folded => folded.2).symm
    | none =>
      have found : r.typeNode? (.interfaceType t.qualifiedName) = none := found
      refine ⟨t, ?_, there, .inl rfl⟩
      simp [Registry.type?, Registry.class?, Registry.typeOfKind?, some_name, found, own]

/-- A name does not stand for a namespace. -/
theorem Laid.kind?_type? {d : TypeNode} (h : r.type? name = some d) : d.id.kind? ≠ some .space := by
  have registered {kind : TypeKind} {t : TypeNode}
      (found : r.typeNode? (.ofKey name kind.nodeKind) = some t) : t.id.kind? ≠ some .space := by
    obtain ⟨there, _, _⟩ := laid.typeNode?_cases found
    obtain ⟨key, named⟩ := laid.named _ there
    have id : t.id = .ofKey key t.kind.nodeKind := named
    cases at_t : t.kind <;> simp [id, at_t, TypeKind.nodeKind]
  unfold Registry.type? at h
  split at h
  · simp at h
  · rcases Option.or_eq_some_iff.mp h with interface | ⟨_, other⟩
    · exact registered (show r.typeNode? (.ofKey name TypeKind.interfaceType.nodeKind) = some d
        from interface)
    · unfold Registry.class? Registry.typeOfKind? at other
      split at other
      · simp at other
      · cases found : r.typeNode? (.ofKey name TypeKind.classType.nodeKind) with
        | some t =>
          obtain rfl : t = d := by simpa [found] using other
          exact registered found
        | none =>
          obtain rfl : TypeNode.placeholder name .classType = d := by simpa [found] using other
          simp [TypeNode.placeholder, TypeKind.nodeKind]

end

end

/-- Whether a method of a class is registered before an interface with the name of the class. -/
def Overtaken (r : Registry) : Prop :=
  ∃ c i m, .type c ∈ r.toList ∧ c.kind = .classType ∧ .type i ∈ r.toList ∧ i.kind = .interfaceType
    ∧ Text.lower c.qualifiedName = Text.lower i.qualifiedName
    ∧ m.refs.declaringType = c.qualifiedName ∧ [.method m, .type i].Sublist r.toList

theorem sublist_or_sublist {α : Type} {l : List α} {x y : α} (left : x ∈ l) (right : y ∈ l)
    (other : x ≠ y) : [x, y].Sublist l ∨ [y, x].Sublist l := by
  obtain ⟨before, after, rfl⟩ := List.append_of_mem left
  rcases List.mem_append.mp right with earlier | later
  · exact .inr ((List.singleton_sublist.mpr earlier).append
      (List.singleton_sublist.mpr List.mem_cons_self))
  · have later := (List.mem_cons.mp later).resolve_left fun same => other same.symm
    exact .inl (((List.singleton_sublist.mpr later).cons_cons x).trans
      (List.sublist_append_right _ _))

section

variable {files : List SourceFile} {o : Outline}

/-- Along the order of registration, the methods of a type come after it. -/
theorem Laid.sublist_owner (laid : Laid (Sourced files) r o) (top : ∀ n ∈ o.roots, n.owner? = none)
    {m : MethodNode} (there : .method m ∈ r.toList)
    : ∃ u, .type u ∈ r.toList ∧ u.qualifiedName = m.refs.declaringType
      ∧ [.type u, .method m].Sublist (declarations r.toList) := by
  have declared := (laid.mem_iff.mp ⟨there, rfl⟩).1
  obtain ⟨u, inner, parent, root, named⟩ := laid.formed.owner_entry top declared rfl
  have order : [.type u, .method m].Sublist (declarations r.toList) := by
    have nodes := Outline.nodes_sublist_of_mem_entries parent
    have pair : [.type u, .method m].Sublist o.nodes := List.Sublist.trans
      ((List.singleton_sublist.mpr (Outline.mem_nodes_of_mem_roots root)).cons_cons _) nodes
    rw [laid.nodes]
    exact pair_sublist_declarations pair rfl rfl
  exact ⟨u, (mem_declarations.mp (order.subset (by simp))).1, named, order⟩

/-- All methods on a tour can be counted if none is overtaken: what is entered first has been
registered first.
-/
theorem Laid.counted_iff (laid : Laid (Sourced files) r o) (top : ∀ n ∈ o.roots, n.owner? = none)
    (named : ∀ t, .type t ∈ r.toList → t.qualifiedName.isEmpty = false) {l : List Node}
    (order : firstVisits [] l = declarations r.toList) (inside : ∀ x ∈ l, x ∈ r.toList)
    : Counted r [] l ↔ ¬ Overtaken r := by
  have unique {x y : Node} (left : x ∈ r.toList) (right : y ∈ r.toList) (same : x.id = y.id) : x = y := by
    have found := Registry.node?_of_mem left
    rw [same, Registry.node?_of_mem right] at found
    exact (Option.some.inj found).symm
  rw [DesignMetrics.counted_iff]
  constructor
  · rintro counted ⟨c, i, m, at_c, _, at_i, interface, same, declaring, later⟩
    have member : .method m ∈ l := by
      refine firstVisits_subset [] l (order ▸ mem_declarations.mpr ⟨?_, rfl⟩)
      exact later.subset (by simp)
    obtain ⟨before, after, rfl, first⟩ := List.eq_append_cons_of_mem member
    obtain ⟨d, t, found, met, id⟩ := counted before m after rfl
    rw [declaring, laid.type?_of_interface at_i interface (named c at_c) same.symm] at found
    obtain rfl := Option.some.inj found
    have met : .type t ∈ before := by simpa using met
    obtain rfl : t = i := Node.type.inj (unique (inside _ (by simp [met])) at_i id)
    obtain ⟨earlier, rest, rfl⟩ := List.append_of_mem met
    rw [List.append_assoc, List.cons_append] at order
    have back : .method m ∈ earlier :=
      mem_of_sublist_firstVisits (order ▸ pair_sublist_declarations later rfl rfl)
    exact first (List.mem_append_left _ back)
  · rintro ahead before m after rfl
    have at_m : .method m ∈ r.toList := inside _ (by simp)
    obtain ⟨u, at_u, declaring, parent⟩ := laid.sublist_owner top at_m
    obtain ⟨d, found, at_d, place⟩ := laid.type?_cases at_u (named u at_u)
    refine ⟨d, d, declaring ▸ found, List.mem_append_right _ ?_, rfl⟩
    rcases place with rfl | ⟨kind, kind', same⟩
    · exact mem_of_sublist_firstVisits (order ▸ parent)
    · have pair := (sublist_or_sublist at_d at_m (by simp)).resolve_right fun overtaken =>
        ahead ⟨u, d, m, at_u, kind, at_d, kind', same, declaring.symm, overtaken⟩
      exact mem_of_sublist_firstVisits (order ▸ pair_sublist_declarations pair rfl rfl)

/-- Namespaces that are visited have identifiers of namespaces. -/
theorem Laid.visits_isNamed (laid : Laid (Sourced files) r o) (depth : Nat)
    (units : List CompilationUnit) : Walk.Visits Visit.IsNamed (Walk.unitsTo r depth units) := by
  have registered (n : NamespaceNode) (there : .space n ∈ r.toList) : n.id.kind? = some .space := by
    obtain ⟨key, named⟩ := laid.named _ there
    have id : n.id = .ofKey key .space := named
    simp [id]
  have spaces := Walk.visits_spaces registered laid.kind?_namespaceNamed depth units
  intro v entered
  cases v with
  | space n => exact spaces _ entered n rfl
  | _ => trivial

end

variable {a : Analyzer κ} {files : List SourceFile} {o : Outline}

/-- Analyses other than counting never refuse an event. -/
theorem Analyzer.observe_ok [CacheStore κ] (other : a.kind ≠ .nodeCount)
    : ∃ a', a.observe r e = .ok a' ∧ a'.kind = a.kind := by
  cases a with
  | nodeCount => exact absurd rfl other
  | _ => exact ⟨_, rfl, rfl⟩

theorem Analyzer.observeAll_ok [CacheStore κ] (events : List Event) (other : a.kind ≠ .nodeCount)
    : ∃ a', Traversal.observeAll r events a = .ok a' := by
  induction events generalizing a with
  | nil => exact ⟨a, rfl⟩
  | cons e events ih =>
    obtain ⟨a', step, kind⟩ := Analyzer.observe_ok (r := r) (e := e) other
    have step : Observer.observe r e a = .ok a' := step
    rw [Traversal.observeAll, step]
    exact ih (kind ▸ other)

variable {units : List CompilationUnit}

/-- Of all analyzers, only the one that counts can end an analysis. -/
theorem Analyzer.run_fault_iff [CacheStore κ] {cache : κ}
    : (Analyzer.run r units AnalyzerKind.all cache).1.fault = none
      ↔ (Walk.units r units).fault = none
        ∧ ∃ a, Traversal.observeAll r (Walk.units r units).events
            (Analyzer.nodeCount {} : Analyzer κ) = .ok a := by
  rw [Analyzer.run, Traversal.follow_fault_iff]
  refine and_congr_right fun _ => ⟨fun all => all _ ?_, fun counts a member => ?_⟩
  · simp [AnalyzerKind.all, Analyzer.start]
  · simp only [AnalyzerKind.all, List.map_cons, List.map_nil, Analyzer.start, List.mem_cons,
      List.not_mem_nil, or_false] at member
    rcases member with rfl | rfl | rfl | rfl
    · exact Analyzer.observeAll_ok _ (by simp [Analyzer.kind])
    · exact counts
    · exact Analyzer.observeAll_ok _ (by simp [Analyzer.kind])
    · exact Analyzer.observeAll_ok _ (by simp [Analyzer.kind])

/-- What an analysis that comes to its end leaves of an analyzer. -/
theorem Analyzer.run_observer [CacheStore κ] {kinds : List AnalyzerKind} {cache : κ}
    (fine : (Analyzer.run r units kinds cache).1.fault = none) {i : Nat} {kind : AnalyzerKind}
    (here : kinds[i]? = some kind)
    (done : Traversal.observeAll r (Walk.units r units).events (Analyzer.start cache kind) = .ok a)
    : (Analyzer.run r units kinds cache).1.observers[i]? = some a := by
  have states := congrArg (·[i]?) (Traversal.follow_states fine)
  simp only [List.getElem?_map, here, Option.map_some, done, Option.map_eq_some_iff] at states
  obtain ⟨b, found, same⟩ := states
  exact Except.ok.inj same ▸ found

/-- The types in the registry have the kinds and names of types in the files. -/
theorem Bound.type_mem (h : Bound files [] ∅ (units, r) o) (there : .type t ∈ r.toList)
    : ∃ file ∈ files, (t.kind, t.qualifiedName) ∈ file.types :=
  (h.laid.formed.new.standsIn (h.laid.mem_iff.mp ⟨there, rfl⟩).1).type_mem.1

/-- No interface of plain files takes the methods of a class. -/
theorem Bound.not_overtaken (h : Bound files [] ∅ (units, r) o) (plain : Plain files)
    : ¬ Overtaken r := by
  rintro ⟨c, i, m, at_c, kind, at_i, kind', same, _⟩
  obtain ⟨file, member, type⟩ := h.type_mem at_c
  obtain ⟨file', member', type'⟩ := h.type_mem at_i
  have kinds := plain.kinds file member _ type file' member' _ type' same
  simp [kind, kind'] at kinds

/-- Without a way back, counting comes to its end exactly if no method is overtaken. -/
theorem Bound.counts_iff (h : Bound files [] ∅ (units, r) o) (straight : ¬ WayBack r)
    (named : ∀ file ∈ files, ∀ type ∈ file.types, type.2 ≠ "") [CacheStore κ]
    : (∃ a, Traversal.observeAll r (Walk.units r units).events
          (Analyzer.nodeCount {} : Analyzer κ) = .ok a) ↔ ¬ Overtaken r := by
  have laid : Laid (Sourced files) r o := h.laid
  have tour := Walk.tours_unitsTo (h.fault_iff.mpr straight)
  have spaces : Walk.Visits Visit.IsNamed (Walk.units r units) := laid.visits_isNamed _ units
  have records : ∀ id, id.kind? ≠ some .space
      → (({} : NodeCount).records.contains id ↔ ∃ t, .type t ∈ ([] : List Node) ∧ t.id = id) := by
    simp
  refine (Analyzer.nodeCount_ok_iff laid.kind?_namespaceNamed (fun _ _ => laid.kind?_type?) spaces
    records).trans ?_
  refine laid.counted_iff h.marks.bodies (fun t there => ?_) ?_ ?_
  · obtain ⟨file, member, type⟩ := h.type_mem there
    simpa using named file member _ type
  · rw [h.marks.marks] at tour
    exact laid.firstVisits_eq straight tour
  · exact fun x member => tour.subset_toList member

/-- An analysis of files whose types have names comes to its end exactly if no type lists a method that
it is declared in and no method of a class is overtaken by an interface with the name of the class.
Analyses of plain files always do.
-/
theorem run_fault_eq_none_iff (files : List (SourceFile × String))
    (unbound : ∀ file ∈ files, file.1.Unbound)
    (named : ∀ file ∈ files, ∀ type ∈ file.1.types, type.2 ≠ "") {κ : Type} [CacheStore κ] (cache : κ)
    : let units := (bindAll ∅ files).1
      let r := (bindAll ∅ files).2
      ((Analyzer.run r units AnalyzerKind.all cache).1.fault = none ↔ ¬ WayBack r ∧ ¬ Overtaken r)
      ∧ (Plain (files.map Prod.fst)
        → (Analyzer.run r units AnalyzerKind.all cache).1.fault = none) := by
  intro units r
  obtain ⟨o, bound⟩ := bindAll_empty_bound files unbound
  have main : (Analyzer.run r units AnalyzerKind.all cache).1.fault = none
      ↔ ¬ WayBack r ∧ ¬ Overtaken r := by
    rw [Analyzer.run_fault_iff, bound.fault_iff]
    exact and_congr_right fun straight => bound.counts_iff straight (by simpa using named)
  exact ⟨main, fun plain => main.mpr ⟨bound.straight plain, bound.not_overtaken plain⟩⟩

def earlyInterface : SourceFile :=
  let method (name : String) (line : UInt64) : Member :=
    .method ⟨name, .isPublic, [], none, [], some [], ⟨line, line⟩⟩
  ⟨"a.php", [.interfaceDecl ⟨"A", [], [method "m" 2], ⟨1, 3⟩⟩,
    .classDecl ⟨"a", .none, none, [], [method "m" 5, method "n" 6], ⟨4, 7⟩⟩]⟩

/-- The methods of the class come after the interface, so they are counted for it. -/
theorem run_fault_earlyInterface
    : (∀ file ∈ [(earlyInterface, "")], file.1.Unbound)
      ∧ (∀ file ∈ [(earlyInterface, "")], ∀ type ∈ file.1.types, type.2 ≠ "")
      ∧ ¬ Plain [earlyInterface]
      ∧ (Analyzer.run (bindAll ∅ [(earlyInterface, "")]).2 (bindAll ∅ [(earlyInterface, "")]).1
          AnalyzerKind.all NoCache.mk).1.fault = none
      ∧ ¬ Overtaken (bindAll ∅ [(earlyInterface, "")]).2 := by
  have unbound : ∀ file ∈ [(earlyInterface, "")], file.1.Unbound := by decide +kernel
  have named : ∀ file ∈ [(earlyInterface, "")], ∀ type ∈ file.1.types, type.2 ≠ "" := by
    decide +kernel
  have fine : (Analyzer.run (bindAll ∅ [(earlyInterface, "")]).2
      (bindAll ∅ [(earlyInterface, "")]).1 AnalyzerKind.all NoCache.mk).1.fault = none := by
    rw [← Option.isNone_iff_eq_none]
    decide +kernel
  have ends := (run_fault_eq_none_iff [(earlyInterface, "")] unbound named NoCache.mk).1.mp fine
  exact ⟨unbound, named, by decide +kernel, fine, ends.2⟩

def lateInterface : SourceFile :=
  let method : Member := .method ⟨"m", .isPublic, [], none, [], some [], ⟨2, 2⟩⟩
  ⟨"a.php", [.classDecl ⟨"A", .none, none, [], [method], ⟨1, 3⟩⟩,
    .interfaceDecl ⟨"A", [], [], ⟨4, 5⟩⟩]⟩

/-- The method is looked for under the interface, which has not been met. -/
theorem refused_lateInterface
    : lateInterface.Unbound ∧ (∀ type ∈ lateInterface.types, type.2 ≠ "" ∧ ':' ∉ type.2.toList)
      ∧ (Analyzer.run (bindAll ∅ [(lateInterface, "")]).2 (bindAll ∅ [(lateInterface, "")]).1
          AnalyzerKind.all NoCache.mk).1.fault.map (TraversalFault.message NodeCountFault.message)
        = some ("analyzer `node-count` failed at A::m()#m: "
          ++ "declaring type A#i was not visited") := by
  refine ⟨by decide +kernel, by decide +kernel, ?_⟩
  decide +kernel

end DesignMetrics
