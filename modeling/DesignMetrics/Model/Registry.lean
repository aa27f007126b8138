import DesignMetrics.Model.Node

/-!
The registry: all nodes of a run, found by their identifiers.
-/

namespace DesignMetrics

def NodeId.folded? (id : NodeId) : Option String :=
  if "#p".toList.isSuffixOf id.text.toList then none else some (Text.lower id.text)

def foldedAt (nodes : Array Node) (i : Nat) : Option String :=
  (nodes[i]?).bind fun n => n.id.folded?

def FirstSpelling (nodes : Array Node) (key : String) (i : Nat) : Prop :=
  foldedAt nodes i = some key ∧ ∀ j < i, foldedAt nodes j ≠ some key

/-- A folded identifier that occurs has a first place, by induction on any of its places. -/
theorem exists_firstSpelling {nodes : Array Node} {key : String} {i : Nat}
    (h : foldedAt nodes i = some key) : ∃ j, FirstSpelling nodes key j := by
  induction i using Nat.strongRecOn with
  | ind i ih =>
    by_cases earlier : ∃ j < i, foldedAt nodes j = some key
    · obtain ⟨j, less, there⟩ := earlier
      exact ih j less there
    · exact ⟨i, h, fun j less there => earlier ⟨j, less, there⟩⟩

/-- A new last node changes the folded identifier of its own place only. -/
theorem foldedAt_push (nodes : Array Node) (new : Node) (i : Nat)
    : foldedAt (nodes.push new) i = if i = nodes.size then new.id.folded? else foldedAt nodes i := by
  unfold foldedAt
  rw [Array.getElem?_push]
  split <;> rfl

theorem foldedAt_size_le {nodes : Array Node} {i : Nat} (h : nodes.size ≤ i)
    : foldedAt nodes i = none := by
  simp [foldedAt, h]

/-- Beyond the last place there is no first one. -/
theorem FirstSpelling.lt_size {nodes : Array Node} {key : String} {i : Nat}
    (h : FirstSpelling nodes key i) : i < nodes.size := by
  apply Nat.lt_of_not_le
  intro beyond
  have there := h.1
  rw [foldedAt_size_le beyond] at there
  contradiction

/-- A first place stays the first one behind which a node is added. -/
theorem firstSpelling_push_of_old {nodes : Array Node} {key : String} {i : Nat} (new : Node)
    (h : FirstSpelling nodes key i) : FirstSpelling (nodes.push new) key i := by
  have bound := h.lt_size
  refine ⟨?_, fun j less => ?_⟩
  · rw [foldedAt_push, if_neg (Nat.ne_of_lt bound)]
    exact h.1
  · rw [foldedAt_push, if_neg (Nat.ne_of_lt (Nat.lt_trans less bound))]
    exact h.2 j less

/-- There is one first place at most. -/
theorem FirstSpelling.unique {nodes : Array Node} {key : String} {i j : Nat}
    (hi : FirstSpelling nodes key i) (hj : FirstSpelling nodes key j) : i = j := by
  rcases Nat.lt_trichotomy i j with less | same | more
  · exact absurd hi.1 (hj.2 i less)
  · exact same
  · exact absurd hj.1 (hi.2 j more)

/-- The first places after a node is added: those from before, and the new one if it is a first. -/
theorem firstSpelling_push_iff {nodes : Array Node} {new : Node} (key : String) (i : Nat)
    : FirstSpelling (nodes.push new) key i
      ↔ FirstSpelling nodes key i
        ∨ (i = nodes.size ∧ new.id.folded? = some key ∧ ¬ ∃ j, FirstSpelling nodes key j) := by
  constructor
  · intro h
    by_cases known : ∃ j, FirstSpelling nodes key j
    · obtain ⟨j, first⟩ := known
      have same := h.unique (firstSpelling_push_of_old new first)
      exact Or.inl (same ▸ first)
    · right
      have here := h.1
      rw [foldedAt_push] at here
      by_cases last : i = nodes.size
      · exact ⟨last, by simpa [last] using here, known⟩
      · rw [if_neg last] at here
        exact absurd (exists_firstSpelling here) known
  · rintro (old | ⟨rfl, folds, fresh⟩)
    · exact firstSpelling_push_of_old new old
    · refine ⟨by rw [foldedAt_push, if_pos rfl]; exact folds, fun j less there => ?_⟩
      rw [foldedAt_push, if_neg (Nat.ne_of_lt less)] at there
      exact fresh (exists_firstSpelling there)

structure Registry where
  nodes : Array Node
  slots : Std.TreeMap NodeId Nat
  spellings : Std.TreeMap String Nat
  slots_iff : ∀ (id : NodeId) (i : Nat), slots[id]? = some i ↔ (nodes[i]?).map Node.id = some id
  spellings_iff : ∀ (key : String) (i : Nat), spellings[key]? = some i ↔ FirstSpelling nodes key i

namespace Registry

def empty : Registry where
  nodes := #[]
  slots := ∅
  spellings := ∅
  slots_iff := by simp
  spellings_iff := by simp [FirstSpelling, foldedAt]

instance : EmptyCollection Registry := ⟨empty⟩

instance : Inhabited Registry := ⟨empty⟩

def replace (r : Registry) (node : Node) (i : Nat) (here : (r.nodes[i]?).map Node.id = some node.id)
    : Registry :=
  have ids (j : Nat) :
      ((r.nodes.setIfInBounds i node)[j]?).map Node.id = (r.nodes[j]?).map Node.id := by
    rw [Array.getElem?_setIfInBounds]
    split
    · rename_i same
      subst same
      split
      · exact here.symm
      · rename_i beyond
        simp [Array.getElem?_eq_none (Nat.le_of_not_lt beyond)]
    · rfl
  have folded (j : Nat) : foldedAt (r.nodes.setIfInBounds i node) j = foldedAt r.nodes j := by
    have same := congrArg (fun id => id.bind NodeId.folded?) (ids j)
    simpa [foldedAt, Option.bind_map, Function.comp_def] using same
  { nodes := r.nodes.setIfInBounds i node
    slots := r.slots
    spellings := r.spellings
    slots_iff := fun id j => by rw [ids]; exact r.slots_iff id j
    spellings_iff := fun key j => by
      rw [r.spellings_iff]
      simp [FirstSpelling, folded] }

def add (r : Registry) (node : Node) (fresh : r.slots[node.id]? = none) : Registry :=
  { nodes := r.nodes.push node
    slots := r.slots.insert node.id r.nodes.size
    spellings :=
      match node.id.folded? with
      | some key => r.spellings.insertIfNew key r.nodes.size
      | none => r.spellings
    slots_iff := fun id i => by
      rw [Std.TreeMap.getElem?_insert, Array.getElem?_push]
      by_cases last : i = r.nodes.size
      · subst last
        by_cases same : node.id = id
        · subst same
          simp
        · have missing := r.slots_iff id r.nodes.size
          simp_all
      · by_cases same : node.id = id
        · subst same
          have missing := r.slots_iff node.id i
          simp_all [eq_comm]
        · have known := r.slots_iff id i
          simp_all
    spellings_iff := fun key i => by
      rw [firstSpelling_push_iff, ← r.spellings_iff]
      have known : (∃ j, FirstSpelling r.nodes key j) ↔ key ∈ r.spellings := by
        simp only [← r.spellings_iff]
        rw [Std.TreeMap.mem_iff_isSome_getElem?, Option.isSome_iff_exists]
      rw [known]
      split
      · rename_i found folds
        rw [Std.TreeMap.getElem?_insertIfNew]
        by_cases same : found = key
        · subst same
          by_cases member : found ∈ r.spellings <;> simp_all [eq_comm]
        · simp_all
      · simp_all }

/-- A node registered under an identifier that is there already takes the place of the old one, so
nodes stay in the order in which their identifiers were first registered. -/
def register (r : Registry) (node : Node) : Registry :=
  match h : r.slots[node.id]? with
  | some i => r.replace node i ((r.slots_iff node.id i).mp h)
  | none => r.add node h

def registerAll (r : Registry) (nodes : List Node) : Registry := nodes.foldl register r

def size (r : Registry) : Nat := r.nodes.size

def toList (r : Registry) : List Node := r.nodes.toList

def contains (r : Registry) (id : NodeId) : Bool := r.slots.contains id

/-- An identifier that is not registered stands for the first one that differs from it only in ASCII
case, except that properties are always matched exactly. -/
def slot? (r : Registry) (id : NodeId) : Option Nat :=
  (r.slots[id]?).or (id.folded?.bind fun key => r.spellings[key]?)

def node? (r : Registry) (id : NodeId) : Option Node :=
  (r.slot? id).bind fun i => r.nodes[i]?

def isDeclared (r : Registry) (id : NodeId) : Bool := (r.node? id).any Node.isUserDefined

def types (r : Registry) : List TypeNode := r.toList.filterMap Node.type?

def typeNode? (r : Registry) (id : NodeId) : Option TypeNode := (r.node? id).bind Node.type?

/-- Names of namespaces that are not registered stand for placeholders, as names of types do. -/
def namespaceNamed (r : Registry) (name : String) : NamespaceNode :=
  match r.node? (.space name) with
  | some (.space n) => n
  | _ => .placeholder name

def typeOfKind? (r : Registry) (kind : TypeKind) (name : String) : Option TypeNode :=
  if name.isEmpty then none
  else some ((r.typeNode? (.ofKey name kind.nodeKind)).getD (.placeholder name kind))

def class? (r : Registry) (name : String) : Option TypeNode := r.typeOfKind? .classType name

def interface? (r : Registry) (name : String) : Option TypeNode := r.typeOfKind? .interfaceType name

def type? (r : Registry) (name : String) : Option TypeNode :=
  if name.isEmpty then none
  else (r.typeNode? (.interfaceType name)).or (r.class? name)

def method? (r : Registry) (declaring name : String) : Option MethodNode :=
  match r.node? (.method declaring name) with
  | some (.method m) => some m
  | _ => none

def function? (r : Registry) (name : String) : Option FunctionNode :=
  match r.node? (.function name) with
  | some (.function f) => some f
  | _ => none

def parentOf? (r : Registry) (t : TypeNode) : Option TypeNode := t.refs.parent.bind r.class?

def interfacesOf (r : Registry) (t : TypeNode) : List TypeNode :=
  t.refs.interfaces.filterMap r.interface?

def superTypes (r : Registry) (t : TypeNode) : List TypeNode :=
  (r.parentOf? t).toList ++ r.interfacesOf t

def typesNamed (r : Registry) (names : List String) : List TypeNode := names.filterMap r.type?

def resolveType? (r : Registry) (current : Option TypeNode) : TypeRef → Option TypeNode
  | .named name => r.type? name
  | .selfType | .staticType => current.bind fun t => r.type? t.qualifiedName
  | .parentType => current.bind r.parentOf?
  | .scalar _ => none

def resolveClass? (r : Registry) (current : Option TypeNode) : ClassRef → Option TypeNode
  | .type t => r.resolveType? current t
  | .dynamic _ => none

end Registry

end DesignMetrics
