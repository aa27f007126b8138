import DesignMetrics.Proofs.Metric.Completion
import DesignMetrics.Proofs.Metric.NamespaceLog
import DesignMetrics.Proofs.Metric.NamespaceSpelling

/-! What is counted, by nodes.
Every counter tells how many of the declarations that have been entered satisfy something, as long as no
type is entered twice: the record of a type starts again whenever it is entered.
-/

namespace DesignMetrics

-- Kinds of declarations

namespace Node

def isClass : Node → Bool
  | type t => t.kind = .classType
  | _ => false

def isInterface : Node → Bool
  | type t => t.kind = .interfaceType
  | _ => false

def isAbstractType : Node → Bool
  | type t => t.isAbstract
  | _ => false

def isConcreteType : Node → Bool
  | type t => !t.isAbstract
  | _ => false

def isMethod : Node → Bool
  | method _ => true
  | _ => false

def isFunction : Node → Bool
  | function _ => true
  | _ => false

def counts : Node → Bool
  | type _ | method _ | function _ => true
  | space _ | property _ => false

def countIn (n : Node) (s : NodeCountRecord) : NodeCountRecord :=
  match n with
  | type t =>
    match t.kind with
    | .classType => s.addClass
    | .interfaceType => s.addInterface
  | method _ => s.addMethod
  | function _ => s.addFunction
  | _ => s

def declaredIn? (r : Registry) : Node → Option NodeId
  | method m => (r.type? m.refs.declaringType).map TypeNode.id
  | _ => none

end Node

def Registry.countIn (r : Registry) (nodes : List Node) (space : NodeId) (p : Node → Bool) : Nat :=
  nodes.countP fun n => p n && r.spaceOf n = space

/-- A registered type has not the identifier of a namespace. -/
theorem Registry.kind?_type {r : Registry} (named : ∀ n ∈ r.toList, ∃ key, n.id = .ofKey key n.kind)
    {t : TypeNode} (there : .type t ∈ r.toList) : t.id.kind? ≠ some .space := by
  obtain ⟨key, own⟩ := named _ there
  have own : t.id = .ofKey key t.kind.nodeKind := own
  cases kind : t.kind <;> simp [own, kind, TypeKind.nodeKind]

-- Records

namespace NodeCount

variable {r : Registry} {c c' : NodeCount} {x : NodeId}

def spaceRecord (r : Registry) (nodes : List Node) (space : NodeId) : NodeCountRecord :=
  ⟨r.countIn nodes space Node.isClass, r.countIn nodes space Node.isInterface,
    r.countIn nodes space Node.isMethod, r.countIn nodes space Node.isFunction⟩

def typeRecord (r : Registry) (nodes : List Node) (type : NodeId) : NodeCountRecord :=
  { methods := nodes.countP fun n => n.declaredIn? r = some type }

theorem countIn_concat (nodes : List Node) (n : Node) (a : NodeId) (p : Node → Bool)
    : r.countIn (nodes ++ [n]) a p
      = if p n ∧ r.spaceOf n = a then r.countIn nodes a p + 1 else r.countIn nodes a p := by
  unfold Registry.countIn
  split <;> simp_all

/-- One node more is counted in its own namespace. -/
theorem spaceRecord_concat (nodes : List Node) (n : Node) (a : NodeId)
    : spaceRecord r (nodes ++ [n]) a
      = if r.spaceOf n = a then n.countIn (spaceRecord r nodes a) else spaceRecord r nodes a := by
  simp only [spaceRecord, countIn_concat]
  by_cases inside : r.spaceOf n = a
  · simp only [inside, and_true, if_true]
    cases n with
    | type t =>
      cases kind : t.kind <;>
        simp [kind, Node.countIn, Node.isClass, Node.isInterface, Node.isMethod, Node.isFunction,
          NodeCountRecord.addClass, NodeCountRecord.addInterface, NodeCountRecord.oneMore]
    | _ => rfl
  · simp [inside]

theorem getElem?_touch (n : NamespaceNode) (x : NodeId)
    : (c.touch n).records[x]?
      = if x = n.id then some ((c.records[x]?).getD .ofNamespace) else c.records[x]? := by
  unfold touch
  split
  · rename_i there
    split
    · rename_i same
      subst same
      obtain ⟨s, found⟩ := Option.isSome_iff_exists.mp (Std.TreeMap.mem_iff_isSome_getElem?.mp there)
      simp [found]
    · rfl
  · rename_i new
    simp only [Std.TreeMap.getElem?_insert, Std.LawfulEqOrd.compare_eq_iff_eq, eq_comm (a := x)]
    split
    · rename_i same
      subst same
      simp [Std.TreeMap.getElem?_eq_none (by simpa using new)]
    · rfl

theorem getElem?_bump (n : NamespaceNode) (add : NodeCountRecord → NodeCountRecord) (x : NodeId)
    : (c.bump n add).records[x]?
      = if x = n.id then some (add ((c.records[x]?).getD .ofNamespace)) else c.records[x]? := by
  simp only [bump, Std.TreeMap.getElem?_modify, Std.LawfulEqOrd.compare_eq_iff_eq, getElem?_touch,
    eq_comm (a := x)]
  split
  · rename_i same
    subst same
    simp
  · rfl

-- Counters and nodes

/-- Whether the counters of the project tell of the given nodes. -/
structure Totals (nodes : List Node) (c : NodeCount) : Prop where
  classes : c.classes = nodes.countP Node.isClass
  abstractClasses : c.abstractClasses = nodes.countP fun n => n.isClass && n.isAbstractType
  interfaces : c.interfaces = nodes.countP Node.isInterface
  methods : c.methods = nodes.countP Node.isMethod
  functions : c.functions = nodes.countP Node.isFunction

variable {nodes : List Node}

theorem Totals.touch (h : Totals nodes c) (n : NamespaceNode) : Totals nodes (c.touch n) := by
  unfold NodeCount.touch
  split
  · exact h
  · exact ⟨h.classes, h.abstractClasses, h.interfaces, h.methods, h.functions⟩

theorem Totals.of_bump (h : Totals nodes c) (n : NamespaceNode)
    (add : NodeCountRecord → NodeCountRecord) : Totals nodes (c.bump n add) := by
  obtain ⟨classes, abstractClasses, interfaces, methods, functions⟩ := h.touch n
  exact ⟨classes, abstractClasses, interfaces, methods, functions⟩

/-- Each counter goes up by one if the next node is of its kind. -/
theorem Totals.concat (h : Totals nodes c) {n : Node}
    (classes : c'.classes = c.classes + n.isClass.toNat)
    (abstractClasses : c'.abstractClasses = c.abstractClasses + (n.isClass && n.isAbstractType).toNat)
    (interfaces : c'.interfaces = c.interfaces + n.isInterface.toNat)
    (methods : c'.methods = c.methods + n.isMethod.toNat)
    (functions : c'.functions = c.functions + n.isFunction.toNat) : Totals (nodes ++ [n]) c' := by
  have one (p : Node → Bool) : (nodes ++ [n]).countP p = nodes.countP p + (p n).toNat := by
    rw [List.countP_append, List.countP_singleton]
    cases p n <;> rfl
  constructor
  · rw [classes, h.classes, one]
  · rw [abstractClasses, h.abstractClasses, one]
  · rw [interfaces, h.interfaces, one]
  · rw [methods, h.methods, one]
  · rw [functions, h.functions, one]

/-- Whether all counters tell of the given nodes. -/
structure Census (r : Registry) (nodes : List Node) (c : NodeCount) : Prop where
  totals : c.Totals nodes
  space {a : NodeId} : a.kind? = some .space
    → (c.records[a]?).getD .ofNamespace = spaceRecord r nodes a
  type {x : NodeId} : x.kind? ≠ some .space → (c.records[x]?).getD .ofType = typeRecord r nodes x

namespace Census

theorem start (r : Registry) : Census r [] {} := by
  refine ⟨by constructor <;> rfl, ?_, ?_⟩ <;>
    simp [spaceRecord, typeRecord, Registry.countIn, NodeCountRecord.ofNamespace,
      NodeCountRecord.ofType]

section

variable (h : Census r nodes c)

include h

/-- A namespace that is entered gets a record in which nothing is counted yet. -/
theorem touch {n : NamespaceNode} (own : n.id.kind? = some .space) : Census r nodes (c.touch n) := by
  refine ⟨h.totals.touch n, ?_, ?_⟩
  · intro a kind
    rw [getElem?_touch, ← h.space kind]
    split <;> rfl
  · intro x kind
    have other : x ≠ n.id := by
      rintro rfl
      exact kind own
    rw [getElem?_touch, if_neg other, h.type kind]

/-- A node is counted in its namespace, which gets a record if it has none. What happens to the records
of types is up to `next`.
-/
theorem bump {n : Node} {next : NodeCount} (own : (r.spaceOf n).kind? = some .space)
    (totals : next.Totals (nodes ++ [n]))
    (space : ∀ a : NodeId, a.kind? = some .space → next.records[a]? = c.records[a]?)
    (type : ∀ x : NodeId, x.kind? ≠ some .space
      → (next.records[x]?).getD .ofType = typeRecord r (nodes ++ [n]) x)
    : Census r (nodes ++ [n]) (next.bump (r.namespaceNamed n.spaceName) n.countIn) := by
  have here : (r.namespaceNamed n.spaceName).id = r.spaceOf n := rfl
  refine ⟨totals.of_bump _ _, ?_, ?_⟩
  · intro a kind
    rw [getElem?_bump, here, space a kind, spaceRecord_concat, ← h.space kind]
    simp only [eq_comm (a := a)]
    split <;> rfl
  · intro x kind
    have other : x ≠ r.spaceOf n := by
      rintro rfl
      exact kind own
    rw [getElem?_bump, here, if_neg other, type x kind]

/-- A type that has not been entered before starts with an empty record. -/
theorem enterType {t : TypeNode} (own : (r.spaceOf (.type t)).kind? = some .space)
    (kind : t.id.kind? ≠ some .space) (new : t.id ∉ c.records)
    : Census r (nodes ++ [.type t]) (c.enterType r t) := by
  obtain ⟨next, eq, records, totals⟩ : ∃ next : NodeCount,
      c.enterType r t = next.bump (r.namespaceNamed t.refs.space) (Node.type t).countIn
      ∧ next.records = c.records.insert t.id .ofType ∧ next.Totals (nodes ++ [.type t]) := by
    cases sort : t.kind with
    | classType =>
      have counted : (Node.type t).countIn = .addClass := by
        funext s
        simp [Node.countIn, sort]
      rw [NodeCount.enterType, sort, counted]
      refine ⟨_, rfl, rfl, h.totals.concat ?_ ?_ ?_ rfl rfl⟩
      · simp [initType, Node.isClass, sort]
      · cases flag : t.isAbstract <;> simp [initType, Node.isClass, Node.isAbstractType, sort, flag]
      · simp [initType, Node.isInterface, sort]
    | interfaceType =>
      have counted : (Node.type t).countIn = .addInterface := by
        funext s
        simp [Node.countIn, sort]
      rw [NodeCount.enterType, sort, counted]
      refine ⟨_, rfl, rfl, h.totals.concat ?_ ?_ ?_ rfl rfl⟩
      · simp [initType, Node.isClass, sort]
      · simp [initType, Node.isClass, sort]
      · simp [initType, Node.isInterface, sort]
  rw [eq]
  refine h.bump (n := .type t) own totals ?_ ?_
  · intro a space
    rw [records, Std.TreeMap.getElem?_insert, if_neg]
    rw [Std.LawfulEqOrd.compare_eq_iff_eq]
    rintro rfl
    exact kind space
  · intro x other
    have same : typeRecord r (nodes ++ [.type t]) x = typeRecord r nodes x := by
      simp [typeRecord, Node.declaredIn?]
    rw [records, Std.TreeMap.getElem?_insert, same, ← h.type other]
    split
    · rename_i here
      obtain rfl := Std.LawfulEqOrd.compare_eq_iff_eq.mp here
      rw [Std.TreeMap.getElem?_eq_none new]
      rfl
    · rfl

/-- A method is counted for its type, which has been entered. -/
theorem enterMethod {m : MethodNode} (own : (r.spaceOf (.method m)).kind? = some .space)
    (types : ∀ d, r.type? m.refs.declaringType = some d → d.id.kind? ≠ some .space)
    (step : c.enterMethod r m = .ok c') : Census r (nodes ++ [.method m]) c' := by
  obtain ⟨d, found, there, rfl⟩ := enterMethod_ok step
  have kind := types d found
  have declared : (Node.method m).declaredIn? r = some d.id := by simp [Node.declaredIn?, found]
  refine h.bump (n := .method m) own (h.totals.concat rfl rfl rfl rfl rfl) ?_ ?_
  · intro a space
    rw [Std.TreeMap.getElem?_modify, if_neg]
    rw [Std.LawfulEqOrd.compare_eq_iff_eq]
    rintro rfl
    exact kind space
  · intro x other
    rw [Std.TreeMap.getElem?_modify]
    have counted : typeRecord r (nodes ++ [.method m]) x
        = if d.id = x then (typeRecord r nodes x).addMethod else typeRecord r nodes x := by
      simp only [typeRecord, List.countP_append, List.countP_singleton, declared,
        Option.some.injEq, decide_eq_true_eq, NodeCountRecord.addMethod]
      split <;> rfl
    rw [counted, ← h.type other]
    simp only [Std.LawfulEqOrd.compare_eq_iff_eq]
    split
    · rename_i same
      subst same
      obtain ⟨s, known⟩ := Option.isSome_iff_exists.mp (Std.TreeMap.mem_iff_isSome_getElem?.mp there)
      simp [known]
    · rfl

theorem enterFunction {f : FunctionNode} (own : (r.spaceOf (.function f)).kind? = some .space)
    : Census r (nodes ++ [.function f])
        ({ c with functions := c.functions + 1 }.bump (r.namespaceNamed f.refs.space) .addFunction) := by
  refine h.bump (n := .function f) own (h.totals.concat rfl rfl rfl rfl rfl) (fun _ _ => rfl) ?_
  intro x other
  rw [h.type other]
  simp [typeRecord, Node.declaredIn?]

/-- A property is not counted. -/
theorem enterProperty (p : PropertyNode) : Census r (nodes ++ [.property p]) c where
  totals := h.totals.concat rfl rfl rfl rfl rfl
  space kind := by
    rw [h.space kind, spaceRecord_concat]
    split <;> rfl
  type kind := by
    rw [h.type kind]
    simp [typeRecord, Node.declaredIn?]

end

section

variable (yields : ∀ name, (r.namespaceNamed name).id.kind? = some .space)
variable (found : ∀ name d, r.type? name = some d → d.id.kind? ≠ some .space)

include yields found

/-- An event that enters a node counts it. -/
theorem observe (h : Census r nodes c) {e : Event}
    (spaces : ∀ n, e = .enter (.space n) → n.id.kind? = some .space)
    (types : ∀ t, e = .enter (.type t) → t.id.kind? ≠ some .space ∧ t.id ∉ c.records)
    (step : c.observe r e = .ok c') : Census r (nodes ++ e.entered?.toList) c' := by
  cases e with
  | leave v =>
    obtain rfl := Except.ok.inj step
    simpa [Event.entered?] using h
  | enter v =>
    cases v with
    | space n =>
      obtain rfl := Except.ok.inj step
      simpa [Event.entered?] using h.touch (spaces n rfl)
    | type t =>
      obtain rfl := Except.ok.inj step
      exact h.enterType (yields _) (types t rfl).1 (types t rfl).2
    | method m => exact h.enterMethod (yields _) (found _) step
    | function f =>
      obtain rfl := Except.ok.inj step
      exact h.enterFunction (yields _)
    | property p =>
      obtain rfl := Except.ok.inj step
      exact h.enterProperty p
    | unit | stmt | expr =>
      obtain rfl := Except.ok.inj step
      simpa [Event.entered?] using h

/-- Events that are all taken count the nodes that they enter, if no type is entered again. -/
theorem foldlM_observe {events : List Event} (h : Census r nodes c)
    (spaces : ∀ n, .enter (.space n) ∈ events → n.id.kind? = some .space)
    (types : ∀ t, .enter (.type t) ∈ events → t.id.kind? ≠ some .space ∧ t.id ∉ c.records)
    (once : ((entered events).map Node.id).Nodup)
    (run : events.foldlM (fun c e => c.observe r e) c = .ok c')
    : Census r (nodes ++ entered events) c' := by
  induction events generalizing nodes c with
  | nil =>
    obtain rfl := Except.ok.inj run
    simpa using h
  | cons e events ih =>
    rw [entered_cons] at once ⊢
    obtain ⟨next, step, rest⟩ := foldlM_cons_ok run
    have own (n : NamespaceNode) (same : e = .enter (.space n)) := spaces n (by simp [same])
    have here := h.observe yields found own (fun t same => types t (by simp [same])) step
    rw [← List.append_assoc]
    refine ih here (fun n member => spaces n (List.mem_cons_of_mem _ member)) (fun t member => ?_)
      (once.sublist (by simp)) rest
    obtain ⟨kind, new⟩ := types t (List.mem_cons_of_mem _ member)
    refine ⟨kind, fun known => ?_⟩
    rcases (mem_observe step).mp known with old | made
    · exact new old
    · obtain ⟨u, enters, same⟩ := (mem_recorded_iff yields own kind).mp made
      have later : .type t ∈ entered events := List.mem_filterMap.mpr ⟨_, member, rfl⟩
      rw [enters, List.map_append] at once
      exact (List.nodup_append.mp once).2.2 u.id (by simp [Node.id]) t.id
        (List.mem_map_of_mem (f := Node.id) later) same

end

end Census

end NodeCount

-- Types of namespaces

namespace Dependency

variable {r : Registry} {d : Dependency}

def types (d : Dependency) (a : NodeId) : Nat × Nat :=
  ((d.spaces[a]?).map fun s => (s.concreteTypes, s.abstractTypes)).getD (0, 0)

theorem types_touch (n : NamespaceNode) (a : NodeId) : (d.touch n).types a = d.types a := by
  unfold types
  rw [getElem?_touch]
  split
  · rename_i new
    rw [Std.TreeMap.getElem?_eq_none (new.1 ▸ new.2)]
    rfl
  · rfl

theorem types_addEdge (source target a : NodeId) : (d.addEdge source target).types a = d.types a := by
  rw [types, getElem?_addEdge, Option.map_map]
  rfl

theorem types_addType (n : NamespaceNode) (t : TypeNode) (a : NodeId)
    : (d.addType n t).types a
      = if n.id = a then ((d.types a).1 + (!t.isAbstract).toNat, (d.types a).2 + t.isAbstract.toNat)
        else d.types a := by
  rw [← types_touch (d := d) n]
  simp only [types, addType, Std.TreeMap.getElem?_modify, Std.LawfulEqOrd.compare_eq_iff_eq]
  split
  · rename_i same
    subst same
    obtain ⟨s, found⟩ := Linked.exists_record ((mem_touch (d := d) (n := n)).mpr (.inl rfl))
    cases flag : t.isAbstract <;> simp [found, NamespaceRecord.addType, flag]
  · rfl

theorem types_dependOn (t : TypeNode) (a : NodeId) : (d.dependOn r t).types a = d.types a := by
  unfold dependOn
  split
  · rfl
  · dsimp only
    split
    · rfl
    · rw [types_addEdge, types_touch]

theorem types_foldl_dependOn (targets : List TypeNode) (a : NodeId)
    : (targets.foldl (dependOn r) d).types a = d.types a := by
  induction targets generalizing d with
  | nil => rfl
  | cons t targets ih => exact ih.trans (types_dependOn t a)

def addTypes (r : Registry) (nodes : List Node) (a : NodeId) (types : Nat × Nat) : Nat × Nat :=
  (types.1 + r.countIn nodes a Node.isConcreteType, types.2 + r.countIn nodes a Node.isAbstractType)

/-- An event that enters a type counts it in its namespace. -/
theorem types_observe (d : Dependency) (e : Event) (a : NodeId)
    : (d.observe r e).types a = addTypes r e.entered?.toList a (d.types a) := by
  cases e with
  | leave v => cases v <;> rfl
  | enter v =>
    have entered : (d.observe r (.enter v)).types a = (d.prepare r v).types a :=
      types_foldl_dependOn _ a
    rw [entered]
    cases v with
    | type t =>
      refine (types_addType (r.namespaceNamed t.refs.space) t a).trans ?_
      have home : (r.namespaceNamed t.refs.space).id = r.spaceOf (.type t) := rfl
      by_cases inside : r.spaceOf (.type t) = a <;> cases flag : t.isAbstract <;>
        simp [addTypes, Registry.countIn, Event.entered?, Node.isConcreteType, Node.isAbstractType,
          home, inside, flag]
    | space n | function n => exact types_touch _ a
    | method | property | unit | stmt | expr => rfl

theorem types_foldl_observe (events : List Event) (d : Dependency) (a : NodeId)
    : (events.foldl (fun d e => d.observe r e) d).types a = addTypes r (entered events) a (d.types a) := by
  induction events generalizing d with
  | nil => rfl
  | cons e events ih =>
    rw [List.foldl_cons, ih, types_observe, entered_cons]
    simp [addTypes, Registry.countIn, Nat.add_assoc]

end Dependency

end DesignMetrics
