import DesignMetrics.Proofs.Registry.ListView
import DesignMetrics.Proofs.Traversal.Itinerary

/-! Walks as tours through the registry.
Which nodes a walk enters is decided by the identifiers that bodies and member lists hold, so a walk
without a fault is a finite tour along these identifiers.
-/

namespace DesignMetrics

-- Walks without a fault

def Event.entered? : Event → Option Node
  | .enter (.type t) => some (.type t)
  | .enter (.method m) => some (.method m)
  | .enter (.function f) => some (.function f)
  | .enter (.property p) => some (.property p)
  | _ => none

def entered (events : List Event) : List Node := events.filterMap Event.entered?

@[simp] theorem entered_nil : entered [] = [] := rfl

@[simp] theorem entered_append (events more : List Event)
    : entered (events ++ more) = entered events ++ entered more := List.filterMap_append

@[simp] theorem entered_cons (e : Event) (events : List Event)
    : entered (e :: events) = e.entered?.toList ++ entered events := by
  rw [entered, List.filterMap_cons]
  cases e.entered? <;> rfl

theorem entered_flatMap {α : Type} (f : α → List Event) (items : List α)
    : entered (items.flatMap f) = items.flatMap fun a => entered (f a) :=
  List.filterMap_flatMap

variable {v : Visit} {r : Registry} {x : Node}

namespace Walk

theorem entered_inside {inner : Walk} (h : inner.fault = none)
    : entered (inside v inner).events = (Event.enter v).entered?.toList ++ entered inner.events := by
  have left : (Event.leave v).entered? = none := rfl
  simp [inside, h, left]

end Walk

/-- A part is no node. -/
theorem Part.entered?_visit? {p : Part} (h : p.visit? r = some v)
    : (Event.enter v).entered? = none := by
  unfold visit? at h
  split at h <;> simp at h <;> subst h <;> rfl

namespace Walk

/-- Walking through a part is walking to its markers, by induction on its size. -/
theorem part_markers (r : Registry) (declared : NodeId → Walk) (p : Part)
    : ((part r declared p).fault = none ↔ ∀ id ∈ p.markers, (declared id).fault = none)
      ∧ ((part r declared p).fault = none
        → entered (part r declared p).events
          = p.markers.flatMap fun id => entered (declared id).events) := by
  have ih (q : Part) (child : q ∈ p.children) :=
    have := Part.sizeOf_lt_of_mem_children child
    part_markers r declared q
  rw [part_eq, Part.markers_eq]
  cases marker : p.marker? with
  | some id =>
    obtain rfl := Part.eq_of_marker? marker
    have leaf : (Part.stmt (.declared id)).children = [] := rfl
    simp [leaf]
  | none =>
    cases visit : p.visit? r with
    | none => simp [Part.children_eq_nil visit, done]
    | some v =>
      have fault : (each (part r declared) p.children).fault = none
          ↔ ∀ id ∈ p.children.flatMap Part.markers, (declared id).fault = none := by
        rw [each_fault_iff]
        simp only [List.mem_flatMap, forall_exists_index, and_imp]
        constructor
        · intro each id q child member
          exact (ih q child).1.mp (each q child) id member
        · intro each q child
          exact (ih q child).1.mpr fun id member => each id q child member
      refine ⟨by simpa using fault, fun fine => ?_⟩
      simp only [inside_fault] at fine
      rw [entered_inside fine, Part.entered?_visit? visit, each_events fine, entered_flatMap]
      simp only [Option.toList_none, List.nil_append, List.flatMap_assoc]
      rw [List.flatMap_def, List.flatMap_def]
      congr 1
      apply List.map_congr_left
      intro q child
      exact (ih q child).2 (each_fault_iff.mp fine q child)
termination_by sizeOf p

theorem stmts_fault_iff {declared : NodeId → Walk} {body : List Stmt}
    : (stmts r declared body).fault = none ↔ ∀ id ∈ markersIn body, (declared id).fault = none := by
  have each (s : Stmt) := (part_markers r declared (.stmt s)).1
  rw [stmts, each_fault_iff, markersIn]
  simp only [List.mem_flatMap, forall_exists_index, and_imp]
  constructor
  · intro fine id s member inside
    exact (each s).mp (fine s member) id inside
  · intro fine s member
    exact (each s).mpr fun id inside => fine id s member inside

end Walk

-- Tours

/-- Whether the body or the member list of a node leads to another one. -/
def Leads (r : Registry) (x y : Node) : Prop := ∃ id ∈ x.links, r.node? id = some y

/-- The nodes that are entered by going to the given identifiers in turn. -/
inductive Tours (r : Registry) : List NodeId → List Node → Prop
  | nil : Tours r [] []
  | cons {id : NodeId} {ids : List NodeId} {x : Node} {inner rest : List Node}
    : r.node? id = some x → Tours r x.links inner → Tours r ids rest
      → Tours r (id :: ids) (x :: (inner ++ rest))

variable {id : NodeId}

namespace Tours

theorem single {inner : List Node} (found : r.node? id = some x) (tour : Tours r x.links inner)
    : Tours r [id] (x :: inner) := by
  simpa using Tours.cons found tour .nil

variable {ids : List NodeId} {l : List Node}

theorem append {more : List NodeId} {next : List Node} (first : Tours r ids l)
    (second : Tours r more next) : Tours r (ids ++ more) (l ++ next) := by
  induction first with
  | nil => exact second
  | cons found inner _ _ ih => simpa using Tours.cons found inner ih

theorem split {more : List NodeId} (h : Tours r (ids ++ more) l)
    : ∃ first second, l = first ++ second ∧ Tours r ids first ∧ Tours r more second := by
  induction ids generalizing l with
  | nil => exact ⟨[], l, rfl, .nil, h⟩
  | cons id ids ih =>
    cases h with
    | cons found inner rest =>
      obtain ⟨first, second, rfl, left, right⟩ := ih rest
      exact ⟨_, second, by simp, .cons found inner left, right⟩

/-- A tour ends, so nothing that it goes to leads on forever. -/
theorem acc (h : Tours r ids l) (member : id ∈ ids) (found : r.node? id = some x)
    : Acc (fun y x => Leads r x y) x := by
  induction h generalizing id x with
  | nil => simp at member
  | cons first _ _ inner_ih rest_ih =>
    rcases List.mem_cons.mp member with rfl | later
    · rw [first] at found
      obtain rfl := Option.some.inj found
      exact ⟨_, fun y ⟨link, inside, there⟩ => inner_ih inside there⟩
    · exact rest_ih later found

/-- A tour that starts in a set of nodes which nothing leads out of stays there. -/
theorem subset {C : List Node} (closed : ∀ x ∈ C, ∀ y, Leads r x y → y ∈ C) (h : Tours r ids l)
    (starts : ∀ id ∈ ids, ∀ x, r.node? id = some x → x ∈ C) : l ⊆ C := by
  induction h with
  | nil => simp
  | @cons id ids x inner rest found _ _ inner_ih rest_ih =>
    have here := starts id (by simp) x found
    refine List.cons_subset.mpr ⟨here, List.append_subset.mpr ⟨?_, ?_⟩⟩
    · exact inner_ih fun link inside y there => closed x here y ⟨link, inside, there⟩
    · exact rest_ih fun other later => starts other (List.mem_cons_of_mem _ later)

theorem subset_toList (h : Tours r ids l) : l ⊆ r.toList := by
  have found {id : NodeId} {x : Node} (at_x : r.node? id = some x) : x ∈ r.toList :=
    (Registry.alike_of_node? at_x).1
  exact h.subset (fun _ _ _ ⟨_, _, at_y⟩ => found at_y) fun _ _ _ at_y => found at_y

end Tours

def Item.links : Item → List NodeId
  | unit u => markersIn u.statements
  | part p => p.markers
  | member id => [id]

theorem links_bodyItems (body : List Stmt) : (bodyItems body).flatMap Item.links = markersIn body := by
  simp [bodyItems, Part.stmts, markersIn, List.flatMap_map, Item.links]

/-- What is visited is the node that the only link of the item leads to, or no node. -/
theorem Visited.links {item : Item} {written : List Item} (h : Visited r item v written)
    : (∃ id x, item.links = [id] ∧ r.node? id = some x ∧ (Event.enter v).entered? = some x
        ∧ x.links = written.flatMap Item.links)
      ∨ (Event.enter v).entered? = none ∧ item.links = written.flatMap Item.links := by
  have marker (id : NodeId) : (Item.part (.stmt (.declared id))).links = [id] := by
    rw [Item.links, Part.markers_eq]
    rfl
  cases h with
  | unit u => exact .inr ⟨rfl, (links_bodyItems _).symm⟩
  | @part p v visit =>
    have none : p.marker? = none := by
      refine Option.eq_none_iff_forall_ne_some.mpr fun id marker => ?_
      obtain rfl := Part.eq_of_marker? marker
      simp [Part.visit?] at visit
    refine .inr ⟨Part.entered?_visit? visit, ?_⟩
    simp [Item.links, Part.markers_eq p, none, List.flatMap_map]
  | @type id t found =>
    exact .inl ⟨id, _, marker id, found, rfl, by simp [Node.links, Item.links, List.flatMap_map]⟩
  | @function id f found => exact .inl ⟨id, _, marker id, found, rfl, (links_bodyItems _).symm⟩
  | @method id m found => exact .inl ⟨id, _, rfl, found, rfl, (links_bodyItems _).symm⟩
  | @property id p found => exact .inl ⟨id, _, rfl, found, rfl, rfl⟩

/-- A walk without a fault is a tour along the links of its items. -/
theorem Walked.tours {items : List Item} {w : Walk} (h : Walked r items w) (fine : w.fault = none)
    : Tours r (items.flatMap Item.links) (entered w.events) := by
  induction h with
  | done => exact .nil
  | @bare s items w declares _ ih =>
    have none : (Item.part (.stmt s)).links = [] := by
      rw [Item.links, Part.markers_eq]
      cases s <;> first | rfl | simp [Stmt.isDeclaration] at declares
    simpa [none] using ih fine
  | failed => simp [Walk.failed] at fine
  | @visit item v written items inner rest visited _ _ inner_ih rest_ih =>
    rw [Walk.andThen_fault_iff, Walk.inside_fault] at fine
    obtain ⟨inside, after⟩ := fine
    rw [List.flatMap_cons, Walk.andThen_events (by simpa using inside), entered_append,
      Walk.entered_inside inside]
    refine Tours.append ?_ (rest_ih after)
    have tour := inner_ih inside
    rcases visited.links with ⟨id, x, link, found, node, links⟩ | ⟨none, links⟩
    · rw [link, node]
      exact .single found (links ▸ tour)
    · simpa [none, links] using tour

/-- A walk through units without a fault is a tour along all their markers. -/
theorem Walk.tours_unitsTo {depth : Nat} {units : List CompilationUnit}
    (fine : (unitsTo r depth units).fault = none)
    : Tours r (units.flatMap fun u => markersIn u.statements)
        (entered (unitsTo r depth units).events) := by
  simpa [List.flatMap_map, Item.links] using (Walked.unitsTo r depth units).tours fine

-- Bounded depth

def Within (r : Registry) : Nat → Node → Prop
  | 0, _ => False
  | d + 1, x => ∀ y, Leads r x y → Within r d y

theorem Within.mono {d e : Nat} (h : Within r d x) (le : d ≤ e) : Within r e x := by
  induction d generalizing e x with
  | zero => exact h.elim
  | succ d ih =>
    obtain ⟨e, rfl⟩ : ∃ e', e = e' + 1 := ⟨e - 1, by omega⟩
    exact fun y leads => ih (h y leads) (by omega)

def Node.admits : Node → Node → Bool
  | type _, method _ | type _, property _ => true
  | type _, _ => false
  | _, y => Snapshot.isDeclaration y

def Sound (r : Registry) (x : Node) : Prop := ∀ id ∈ x.links, ∃ y, r.node? id = some y ∧ x.admits y

namespace Walk

variable {declared : NodeId → Walk}

theorem stmts_fault_eq_none {body : List Stmt} (holds : x.links = markersIn body) (sound : Sound r x)
    (other : x.type? = none)
    (each : ∀ id y, Leads r x y → r.node? id = some y → Snapshot.isDeclaration y
      → (declared id).fault = none) : (stmts r declared body).fault = none := by
  rw [stmts_fault_iff]
  intro id marker
  obtain ⟨y, found, admitted⟩ := sound id (holds ▸ marker)
  refine each id y ⟨id, holds ▸ marker, found⟩ found ?_
  cases x with
  | type t => simp [Node.type?] at other
  | _ => exact admitted

/-- Where no more steps lead on than a walk may be deep, it has no fault. Members do not count for
the depth of a walk, so the bound is the same for them.
-/
theorem fault_eq_none_of_within (sound : ∀ x ∈ r.toList, Sound r x) {d n : Nat}
    (within : Within r d x) (enough : d ≤ n) (found : r.node? id = some x)
    : ((∃ m, x = .method m) ∨ (∃ p, x = .property p)
        → ∀ owner, (member r (declaration r n) owner id).fault = none)
      ∧ (Snapshot.isDeclaration x → (declaration r (n + 1) id).fault = none) := by
  induction d generalizing n x id with
  | zero => exact within.elim
  | succ d ih =>
    have own := sound x (Registry.alike_of_node? found).1
    have marked (id : NodeId) (y : Node) (leads : Leads r x y) (there : r.node? id = some y)
        (kind : Snapshot.isDeclaration y) : (declaration r n id).fault = none := by
      obtain ⟨n, rfl⟩ : ∃ n', n = n' + 1 := ⟨n - 1, by omega⟩
      exact (ih (within y leads) (by omega) there).2 kind
    constructor
    · rintro (⟨m, rfl⟩ | ⟨p, rfl⟩) owner
      · simp only [member, found, inside_fault]
        exact stmts_fault_eq_none rfl own rfl marked
      · simp [member, found, done]
    · intro kind
      unfold declaration
      cases x with
      | type t =>
        simp only [found, inside_fault, each_fault_iff]
        intro link listed
        obtain ⟨y, there, admitted⟩ := own link listed
        refine (ih (within y ⟨link, listed, there⟩) (by omega) there).1 ?_ t.id
        cases y <;> simp_all [Node.admits]
      | function f =>
        simp only [found, inside_fault]
        exact stmts_fault_eq_none rfl own rfl marked
      | _ => simp [Snapshot.isDeclaration] at kind

end Walk

-- Everything that is visited

def Node.visit : Node → Visit
  | space n => .space n
  | type t => .type t
  | method m => .method m
  | function f => .function f
  | property p => .property p

def Node.statements : Node → List Stmt
  | method m => m.body.getD []
  | function f => f.body
  | space _ | type _ | property _ => []

def Item.Opens (r : Registry) (units : List CompilationUnit) (P : Visit → Prop) : Item → Prop
  | unit u => u ∈ units
  | part p => ∀ q ∈ p.within, ∀ v, q.visit? r = some v → P v
  | member _ => True

/-- Whether a node that is visited is registered. -/
def Visit.Registered (r : Registry) (v : Visit) : Prop :=
  ∀ n, (Event.enter v).entered? = some n → n ∈ r.toList

namespace Walk

variable {P : Visit → Prop}

/-- Whether everything that a walk enters has a property. -/
def Visits (P : Visit → Prop) (w : Walk) : Prop := ∀ v, .enter v ∈ w.events → P v

/-- A walk enters what can be reached from its items. What is known of each item is known of what is
written in it.
-/
theorem visits_of_walked {Q : Item → Prop} {items : List Item} {w : Walk} (h : Walked r items w)
    (reach : ∀ {item v written}, Visited r item v written → Q item → P v ∧ ∀ i ∈ written, Q i)
    (all : ∀ i ∈ items, Q i) : Visits P w := by
  induction h with
  | done => simp [Visits, done]
  | failed => simp [Visits, failed]
  | bare _ _ ih => exact ih fun i member => all i (List.mem_cons_of_mem _ member)
  | @visit item v written items inner rest visited _ _ inner_ih rest_ih =>
    obtain ⟨here, within⟩ := reach visited (all item List.mem_cons_self)
    have inside : Visits P (inside v inner) := by
      intro w entered
      unfold Walk.inside at entered
      split at entered <;> simp at entered <;> rcases entered with rfl | entered
      · exact here
      · exact inner_ih within w entered
      · exact here
      · exact inner_ih within w entered
    intro w entered
    unfold andThen at entered
    split at entered
    · exact inside w entered
    · rcases List.mem_append.mp entered with first | later
      · exact inside w first
      · exact rest_ih (fun i member => all i (List.mem_cons_of_mem _ member)) w later

/-- A walk enters what is registered and what stands in the bodies of it. -/
theorem visits_unitsTo (nodes : ∀ x ∈ r.toList, P x.visit)
    (bodies : ∀ x ∈ r.toList, ∀ s ∈ x.statements, ∀ q ∈ (Part.stmt s).within, ∀ v,
      q.visit? r = some v → P v)
    {units : List CompilationUnit}
    (own : ∀ u ∈ units, P (.unit u) ∧ ∀ s ∈ u.statements, ∀ q ∈ (Part.stmt s).within, ∀ v,
      q.visit? r = some v → P v) (depth : Nat) : Visits P (unitsTo r depth units) := by
  refine visits_of_walked (Q := Item.Opens r units P) (.unitsTo r depth units)
    (fun visited known => ?_) (by simp [Item.Opens])
  have body {statements : List Stmt} (h : ∀ s ∈ statements, ∀ q ∈ (Part.stmt s).within, ∀ v,
      q.visit? r = some v → P v) : ∀ i ∈ bodyItems statements, i.Opens r units P := by
    simpa [bodyItems, Part.stmts, Item.Opens] using h
  have node {id : NodeId} {x : Node} (found : r.node? id = some x) := (Registry.alike_of_node? found).1
  cases visited with
  | unit u => exact ⟨(own u known).1, body (own u known).2⟩
  | @part p _ visit =>
    rw [Item.Opens, Part.within_eq] at known
    refine ⟨known p List.mem_cons_self _ visit, fun i member => ?_⟩
    obtain ⟨q, child, rfl⟩ := List.mem_map.mp member
    exact fun x inside => known x (List.mem_cons_of_mem _ (List.mem_flatMap.mpr ⟨q, child, inside⟩))
  | type found => exact ⟨nodes _ (node found), by simp [Item.Opens]⟩
  | function found | method found => exact ⟨nodes _ (node found), body (bodies _ (node found))⟩
  | property found => exact ⟨nodes _ (node found), by simp⟩

/-- What holds of units, of registered nodes and of parts holds of all that a walk enters. -/
theorem visits_of_parts (own : ∀ u, P (.unit u)) (nodes : ∀ x ∈ r.toList, P x.visit)
    (parts : ∀ q v, Part.visit? r q = some v → P v) (depth : Nat) (units : List CompilationUnit)
    : Visits P (unitsTo r depth units) :=
  visits_unitsTo nodes (fun _ _ _ _ q _ => parts q) (fun u _ => ⟨own u, fun _ _ q _ => parts q⟩) depth

/-- A walk enters no node that is not registered. -/
theorem visits_registered (r : Registry) (depth : Nat) (units : List CompilationUnit)
    : Visits (Visit.Registered r) (unitsTo r depth units) := by
  refine visits_of_parts (by simp [Visit.Registered, Event.entered?]) (fun x there n enters => ?_)
    (fun q v visit n enters => ?_) depth units
  · cases x with
    | space => simp [Node.visit, Event.entered?] at enters
    | _ =>
      obtain rfl := Option.some.inj enters
      exact there
  · simp [Part.entered?_visit? visit] at enters

/-- A walk enters namespaces as the registry yields them. -/
theorem visits_spaces {P : NamespaceNode → Prop}
    (registered : ∀ n, .space n ∈ r.toList → P n) (yields : ∀ name, P (r.namespaceNamed name))
    (depth : Nat) (units : List CompilationUnit)
    : Visits (fun v => ∀ n, v = .space n → P n) (unitsTo r depth units) := by
  refine visits_of_parts (by simp) (fun x there n same => ?_) (fun q v visit n same => ?_) depth units
  · cases x with
    | space m =>
      obtain rfl := Visit.space.inj same
      exact registered _ there
    | _ => simp [Node.visit] at same
  · subst same
    unfold Part.visit? at visit
    split at visit <;> simp at visit
    exact visit ▸ yields _

end Walk

end DesignMetrics
