import Mathlib.Data.List.Basic
import DesignMetrics.Metric.Reference
import DesignMetrics.Model.Subtype

/-! Registries with the same types.
A reference is followed through types alone, so registries in which the same types and namespaces are
found answer every question about references and inheritance alike.
-/

namespace DesignMetrics

def NamespaceNode.bare (n : NamespaceNode) : NamespaceNode := { n with cached := false }

def NamespaceNode.unplaced (n : NamespaceNode) : NamespaceNode := { n with location := none }

/-- Namespaces that are the same differ in their place and their mark at most. -/
theorem NamespaceNode.eq_of_plain {n n' : NamespaceNode} (h : n.unplaced.bare = n'.unplaced.bare)
    : ∃ location cached, n' = { n with location, cached } := by
  refine ⟨n'.location, n'.cached, ?_⟩
  cases n
  cases n'
  simpa [bare, unplaced] using h.symm

def TypeNode.bare (t : TypeNode) : TypeNode := { t with cached := false }

variable {t t' : TypeNode}

/-- Types that are the same differ in their mark at most. -/
theorem TypeNode.eq_of_bare (h : t.bare = t'.bare) : ∃ cached, t' = { t with cached } := by
  refine ⟨t'.cached, ?_⟩
  cases t
  cases t'
  simpa [bare] using h.symm

def Node.space? : Node → Option NamespaceNode
  | space n => some n
  | _ => none

/-- Whether nodes are seen with their identifiers, and types and namespaces through something. -/
structure Node.Seeing (see : Node → Node) (type : TypeNode → TypeNode)
    (space : NamespaceNode → NamespaceNode) : Prop where
  id (n : Node) : (see n).id = n.id
  isUserDefined (n : Node) : (see n).isUserDefined = n.isUserDefined
  type? (n : Node) : (see n).type? = n.type?.map type
  space? (n : Node) : (see n).space? = n.space?.map space

namespace Node.Seeing

variable {see : Node → Node} {type : TypeNode → TypeNode} {space : NamespaceNode → NamespaceNode}
variable (seeing : Node.Seeing see type space) {r r' : Registry}

include seeing

theorem types (r : Registry) : r.types.map type = (r.toList.map see).filterMap Node.type? := by
  rw [Registry.types, List.map_filterMap, List.filterMap_map]
  exact congrArg (r.toList.filterMap ·) (funext fun n => (seeing.type? n).symm)

theorem ids (nodes : List Node) : nodes.map Node.id = (nodes.map see).map Node.id := by
  simp [Function.comp_def, seeing.id]

theorem declaredIds (nodes : List Node) : (nodes.filter Node.isUserDefined).map Node.id
    = ((nodes.map see).filter Node.isUserDefined).map Node.id := by
  simp [List.filter_map, Function.comp_def, seeing.id, seeing.isUserDefined]

variable (nodes : ∀ id, (r.node? id).map see = (r'.node? id).map see)

include nodes

theorem isDeclared (id : NodeId) : r.isDeclared id = r'.isDeclared id := by
  have both (r : Registry) : r.isDeclared id = ((r.node? id).map see).any Node.isUserDefined := by
    rw [Registry.isDeclared]
    cases r.node? id <;> simp [seeing.isUserDefined]
  rw [both r, both r', nodes]

theorem typeNode? (id : NodeId) : (r.typeNode? id).map type = (r'.typeNode? id).map type := by
  have both (r : Registry) : (r.typeNode? id).map type = ((r.node? id).map see).bind Node.type? := by
    rw [Registry.typeNode?]
    cases r.node? id with
    | none => rfl
    | some n => exact (seeing.type? n).symm
  rw [both r, both r', nodes]

theorem namespaceNamed (name : String)
    : space (r.namespaceNamed name) = space (r'.namespaceNamed name) := by
  have both (r : Registry) : space (r.namespaceNamed name)
      = (((r.node? (.space name)).map see).bind Node.space?).getD (space (.placeholder name)) := by
    rw [Registry.namespaceNamed]
    cases r.node? (.space name) with
    | none => rfl
    | some n =>
      rw [Option.map_some, Option.bind_some, seeing.space?]
      cases n <;> rfl
  rw [both r, both r', nodes]

end Node.Seeing

namespace Registry

/-- Whether the same types and namespaces are found in two registries. -/
structure SameTypes (r r' : Registry) : Prop where
  typeNode? (id : NodeId)
    : (r.typeNode? id).map TypeNode.bare = (r'.typeNode? id).map TypeNode.bare
  types : (r.types.map TypeNode.bare).Perm (r'.types.map TypeNode.bare)
  namespaceNamed (name : String)
    : (r.namespaceNamed name).unplaced.bare = (r'.namespaceNamed name).unplaced.bare

namespace SameTypes

protected theorem refl (r : Registry) : SameTypes r r := ⟨fun _ => rfl, .refl _, fun _ => rfl⟩

variable {r r' : Registry}

/-- Registries with the same nodes, seen through something that hides marks and places at most. -/
theorem of_seen {see : Node → Node} {type : TypeNode → TypeNode}
    {space : NamespaceNode → NamespaceNode} (seeing : Node.Seeing see type space)
    (types : ∀ t, (type t).bare = t.bare)
    (spaces : ∀ n, (space n).unplaced.bare = n.unplaced.bare)
    (nodes : ∀ id, (r.node? id).map see = (r'.node? id).map see)
    (all : (r.toList.map see).Perm (r'.toList.map see)) : SameTypes r r' where
  typeNode? id := by
    have found := congrArg (Option.map TypeNode.bare) (seeing.typeNode? nodes id)
    simpa [Function.comp_def, types] using found
  types := by
    have both (r : Registry) : r.types.map TypeNode.bare = (r.types.map type).map TypeNode.bare := by
      simp [Function.comp_def, types]
    rw [both r, both r', seeing.types, seeing.types]
    exact (all.filterMap _).map _
  namespaceNamed name := by
    rw [← spaces, seeing.namespaceNamed nodes, spaces]

theorem typeOfKind? (h : SameTypes r r') (kind : TypeKind) (name : String)
    : (r.typeOfKind? kind name).map TypeNode.bare = (r'.typeOfKind? kind name).map TypeNode.bare := by
  have both (r : Registry) : (r.typeOfKind? kind name).map TypeNode.bare
      = if name.isEmpty then none
        else some (((r.typeNode? (.ofKey name kind.nodeKind)).map TypeNode.bare).getD
          (TypeNode.placeholder name kind).bare) := by
    unfold Registry.typeOfKind?
    split
    · rfl
    · cases r.typeNode? (.ofKey name kind.nodeKind) <;> rfl
  rw [both r, both r', h.typeNode?]

theorem type? (h : SameTypes r r') (name : String)
    : (r.type? name).map TypeNode.bare = (r'.type? name).map TypeNode.bare := by
  have both (r : Registry) : (r.type? name).map TypeNode.bare
      = if name.isEmpty then none
        else ((r.typeNode? (.interfaceType name)).map TypeNode.bare).or
          ((r.class? name).map TypeNode.bare) := by
    unfold Registry.type?
    split
    · rfl
    · cases r.typeNode? (.interfaceType name) <;> rfl
  rw [both r, both r', h.typeNode?, class?, class?, h.typeOfKind?]

/-- Types that are the same name the same types as their super types. -/
theorem parentOf? (h : SameTypes r r') (same : t.bare = t'.bare)
    : (r.parentOf? t).map TypeNode.bare = (r'.parentOf? t').map TypeNode.bare := by
  obtain ⟨cached, rfl⟩ := TypeNode.eq_of_bare same
  unfold Registry.parentOf?
  cases t.refs.parent with
  | none => rfl
  | some name => exact h.typeOfKind? .classType name

/-- Looking up names one by one. -/
theorem map_filterMap_bare {names : List String} {f g : String → Option TypeNode}
    (same : ∀ name, (f name).map TypeNode.bare = (g name).map TypeNode.bare)
    : (names.filterMap f).map TypeNode.bare = (names.filterMap g).map TypeNode.bare := by
  rw [List.map_filterMap, List.map_filterMap]
  exact congrArg (names.filterMap ·) (funext same)

variable (h : SameTypes r r')

include h

theorem superTypes (same : t.bare = t'.bare)
    : (r.superTypes t).map TypeNode.bare = (r'.superTypes t').map TypeNode.bare := by
  have parents := h.parentOf? same
  obtain ⟨cached, rfl⟩ := TypeNode.eq_of_bare same
  unfold Registry.superTypes
  rw [List.map_append, List.map_append, ← Option.toList_map, ← Option.toList_map, parents]
  exact congrArg _ (map_filterMap_bare (h.typeOfKind? .interfaceType))

/-- A search upwards comes to the same in both. -/
theorem searchUp (goal : NodeId) (steps : Nat) (seen : List NodeId) {queue queue' : List TypeNode}
    (same : queue.map TypeNode.bare = queue'.map TypeNode.bare)
    : r.searchUp goal steps seen queue = r'.searchUp goal steps seen queue' := by
  induction steps generalizing seen queue queue' with
  | zero => rfl
  | succ n ih =>
    cases queue with
    | nil =>
      obtain rfl : queue' = [] := by simpa using same.symm
      rfl
    | cons t queue =>
      cases queue' with
      | nil => simp at same
      | cons t' queue' =>
        obtain ⟨first, rest⟩ : t.bare = t'.bare ∧ queue.map TypeNode.bare = queue'.map TypeNode.bare := by
          simpa using same
        have later : (queue ++ r.superTypes t).map TypeNode.bare
            = (queue' ++ r'.superTypes t').map TypeNode.bare := by
          rw [List.map_append, List.map_append, rest, h.superTypes first]
        obtain ⟨cached, rfl⟩ := TypeNode.eq_of_bare first
        simp only [Registry.searchUp]
        rw [ih seen rest, ih (t.id :: seen) later]

theorem searchSteps (same : t.bare = t'.bare) : r.searchSteps t = r'.searchSteps t' := by
  obtain ⟨cached, rfl⟩ := TypeNode.eq_of_bare same
  have both (r : Registry) (start : Nat)
      : r.types.foldl (fun n u => n + superCount u) start
        = (r.types.map TypeNode.bare).foldl (fun n u => n + superCount u) start := by
    rw [List.foldl_map]
    rfl
  unfold Registry.searchSteps
  rw [both r, both r', h.types.foldl_eq' fun x _ y _ z => by omega]
  rfl

theorem isSubtype {s s' : TypeNode} (left : s.bare = s'.bare) (right : t.bare = t'.bare)
    : r.isSubtype s t = r'.isSubtype s' t' := by
  have steps := h.searchSteps left
  have supers := h.superTypes left
  obtain ⟨_, rfl⟩ := TypeNode.eq_of_bare left
  obtain ⟨_, rfl⟩ := TypeNode.eq_of_bare right
  simp only [Registry.isSubtype]
  rw [steps, h.searchUp _ _ _ supers]


theorem resolveType? {current current' : Option TypeNode}
    (same : current.map TypeNode.bare = current'.map TypeNode.bare) (ref : TypeRef)
    : (r.resolveType? current ref).map TypeNode.bare
      = (r'.resolveType? current' ref).map TypeNode.bare := by
  cases current with
  | none =>
    obtain rfl : current' = none := by simpa using same.symm
    cases ref with
    | named name => exact h.type? name
    | _ => rfl
  | some t =>
    obtain ⟨t', rfl, bare⟩ := Option.map_eq_some_iff.mp same.symm
    have parents := h.parentOf? bare.symm
    obtain ⟨cached, rfl⟩ := TypeNode.eq_of_bare bare.symm
    cases ref with
    | named name => exact h.type? name
    | selfType | staticType => exact h.type? t.qualifiedName
    | parentType => exact parents
    | scalar => rfl

/-- What is visited refers to the same types in both. -/
theorem references {current current' : Option TypeNode}
    (same : current.map TypeNode.bare = current'.map TypeNode.bare) (v : Visit)
    : (r.references current v).map TypeNode.bare = (r'.references current' v).map TypeNode.bare := by
  have signature (returnType : Option String) (thrown parameterTypes : List String)
      : (r.signatureTypes returnType thrown parameterTypes).map TypeNode.bare
        = (r'.signatureTypes returnType thrown parameterTypes).map TypeNode.bare := by
    have first : (returnType.bind r.type?).map TypeNode.bare
        = (returnType.bind r'.type?).map TypeNode.bare := by
      cases returnType with
      | none => rfl
      | some name => exact h.type? name
    unfold Registry.signatureTypes Registry.typesNamed
    rw [List.map_append, List.map_append, ← Option.toList_map, ← Option.toList_map, first]
    exact congrArg _ (map_filterMap_bare h.type?)
  cases v with
  | unit | space | type => rfl
  | method m => exact signature _ _ _
  | function f => exact signature _ _ _
  | property p =>
    unfold Registry.references
    rw [← Option.toList_map, ← Option.toList_map]
    cases p.refs.typeName with
    | none => rfl
    | some name => exact congrArg _ (h.type? name)
  | stmt s =>
    unfold Registry.references
    rw [List.map_filterMap, List.map_filterMap]
    exact congrArg (s.caughtTypes.filterMap ·) (funext (h.resolveType? same))
  | expr e =>
    unfold Registry.references
    rw [← Option.toList_map, ← Option.toList_map]
    cases e.classOperand? with
    | none => rfl
    | some owner =>
      cases owner with
      | type t => exact congrArg _ (h.resolveType? same t)
      | dynamic => rfl

end SameTypes

end Registry

end DesignMetrics
