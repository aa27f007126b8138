import DesignMetrics.Proofs.Binding.Alike
import DesignMetrics.Proofs.Registry.Inheritance
import DesignMetrics.Proofs.Syntax.Folding

/-! Looking up names in any spelling.
In registries that differ in the spelling of references only, names that differ in case only stand for
types with identifiers that are equal up to case. Where the type is declared it is the same one, with
the same super types.
-/

namespace DesignMetrics

def TypeNode.folded (t : TypeNode) : TypeNode :=
  { t with
    refs := { t.refs with
      parent := t.refs.parent.map Text.lower
      interfaces := t.refs.interfaces.map Text.lower } }

variable {t : TypeNode} {x y : String}

theorem TypeNode.id_eq_of_folded {t' : TypeNode} (h : t.folded = t'.folded) : t.id = t'.id :=
  (TypeNode.mk.inj h).1

theorem TypeNode.members_eq_of_folded {t' : TypeNode} (h : t.folded = t'.folded)
    : t.members = t'.members := by
  have both (t : TypeNode) : t.members = t.folded.members := rfl
  rw [both t, both t', h]

def MethodNode.folded (m : MethodNode) : MethodNode :=
  { m with
    refs := { m.refs with
      returnType := m.refs.returnType.map Text.lower
      thrown := m.refs.thrown.map Text.lower
      parameterTypes := m.refs.parameterTypes.map Text.lower }
    params := []
    body := m.body.map (List.map Stmt.folded)
    fingerprint := "" }

def FunctionNode.folded (f : FunctionNode) : FunctionNode :=
  { f with
    refs := { f.refs with
      returnType := f.refs.returnType.map Text.lower
      thrown := f.refs.thrown.map Text.lower
      parameterTypes := f.refs.parameterTypes.map Text.lower }
    params := []
    body := f.body.map Stmt.folded
    fingerprint := "" }

def PropertyNode.folded (p : PropertyNode) : PropertyNode :=
  { p with refs := { p.refs with typeName := p.refs.typeName.map Text.lower } }

abbrev CompilationUnit.folded (u : CompilationUnit) : CompilationUnit := u.seen Stmt.folded

namespace Node

def folded : Node → Node
  | space n => .space n
  | type t => .type t.folded
  | method m => .method m.folded
  | function f => .function f.folded
  | property p => .property p.folded

theorem seeing_folded : Seeing folded TypeNode.folded fun n => n := by
  constructor <;> intro n <;> cases n <;> rfl

end Node

def TypeNode.foldedId (t : TypeNode) : String := Text.lower t.id.text

theorem Text.isEmpty_of_lower (same : lower x = lower y) : x.isEmpty = y.isEmpty := by
  have lengths := congrArg List.length (lower_eq_iff.mp same)
  simp only [List.length_map] at lengths
  rw [Bool.eq_iff_iff]
  simp only [String.isEmpty_iff, ← String.toList_eq_nil_iff, ← List.length_eq_zero_iff, lengths]

section

variable {α β γ δ : Type} {key : α → δ} {f f' : α → Option β} {g : β → γ}

/-- Looking up what is the same up to spelling, item by item. -/
theorem map_filterMap_congr {l l' : List α} (same : l.map key = l'.map key)
    (each : ∀ a a', key a = key a' → (f a).map g = (f' a').map g)
    : (l.filterMap f).map g = (l'.filterMap f').map g := by
  rw [List.map_filterMap, List.map_filterMap]
  induction l generalizing l' with
  | nil =>
    obtain rfl : l' = [] := by simpa using same.symm
    rfl
  | cons a l ih =>
    cases l' with
    | nil => simp at same
    | cons a' l' =>
      obtain ⟨here, later⟩ : key a = key a' ∧ l.map key = l'.map key := by simpa using same
      rw [List.filterMap_cons, List.filterMap_cons, each a a' here, ih later]

theorem map_bind_congr {o o' : Option α} (same : o.map key = o'.map key)
    (each : ∀ a a', key a = key a' → (f a).map g = (f' a').map g)
    : (o.bind f).map g = (o'.bind f').map g := by
  cases o with
  | none =>
    obtain rfl : o' = none := by simpa using same.symm
    rfl
  | some a =>
    obtain ⟨a', rfl, here⟩ := Option.map_eq_some_iff.mp same.symm
    exact each a a' here.symm

end

/-- Identifiers that are alike are equal up to case. -/
theorem NodeId.Alike.lower_eq {a b : NodeId} (h : a.Alike b)
    : Text.lower a.text = Text.lower b.text := by
  rcases h with rfl | ⟨same, known⟩
  · rfl
  · unfold folded? at same known
    split at same <;> split at same <;> simp_all

/-- Identifiers of types that are equal up to case are alike. -/
theorem TypeKind.alike_of_lower {k l : TypeKind}
    (h : Text.lower (NodeId.ofKey x k.nodeKind).text = Text.lower (NodeId.ofKey y l.nodeKind).text)
    : (NodeId.ofKey x k.nodeKind).Alike (.ofKey y l.nodeKind) := by
  obtain ⟨kinds, names⟩ := NodeId.lower_text_inj.mp h
  refine NodeId.alike_ofKey_iff.mpr ⟨kinds, .inr ⟨?_, names⟩⟩
  cases k <;> simp [TypeKind.nodeKind]

namespace Registry

/-- What a name of some kind stands for has that name, up to case. -/
theorem foldedId_typeOfKind? (r : Registry) (kind : TypeKind) (name : String)
    : (r.typeOfKind? kind name).map TypeNode.foldedId
      = if name.isEmpty then none else some (Text.lower (NodeId.ofKey name kind.nodeKind).text) := by
  unfold typeOfKind?
  split
  · rfl
  · cases found : r.typeNode? (.ofKey name kind.nodeKind) with
    | none => rfl
    | some t => exact congrArg some (alike_of_typeNode? found).lower_eq

abbrev Respelled (r r' : Registry) : Prop := r.TidyAlike Node.folded r'

end Registry

namespace Tidy

variable {r : Registry} (h : Tidy r)

include h

/-- In any spelling, the name of a type stands for the same node. -/
theorem typeNode?_eq_of_lower (kind : TypeKind) (same : Text.lower x = Text.lower y)
    : r.typeNode? (.ofKey x kind.nodeKind) = r.typeNode? (.ofKey y kind.nodeKind) := by
  have alike : (NodeId.ofKey x kind.nodeKind).Alike (.ofKey y kind.nodeKind) :=
    TypeKind.alike_of_lower (NodeId.lower_text_inj.mpr ⟨rfl, same⟩)
  have nodes := h.node?_eq_of_alike alike fun n member like => by
    obtain ⟨key, named⟩ := h.named n member
    rw [named] at like
    rw [Bool.eq_false_iff, ne_eq, Node.isSpace_iff, like.kind_eq]
    cases kind <;> simp [TypeKind.nodeKind]
  rw [Registry.typeNode?, nodes, Registry.typeNode?]

/-- A type that its identifier stands for has an identifier of its kind. -/
theorem id_eq_of_typeAt (standing : r.typeAt t.id = t)
    : ∃ key, t.id = .ofKey key t.kind.nodeKind := by
  rcases Registry.typeAt_cases standing with there | ⟨_, name, kind, rfl⟩
  · exact h.named _ there
  · exact ⟨name, rfl⟩

variable {kind : TypeKind} {name : String}

/-- A type that is found by its kind and name has this kind. -/
theorem kind_of_typeNode? (found : r.typeNode? (.ofKey name kind.nodeKind) = some t)
    : t.kind = kind := by
  obtain ⟨key, own⟩ := h.id_eq_of_typeAt (Registry.typeAt_typeNode? found)
  have alike := Registry.alike_of_typeNode? found
  rw [own] at alike
  have kinds := alike.kind_eq
  cases same : t.kind <;> cases kind <;> simp [same, TypeKind.nodeKind] at kinds ⊢

theorem kind_of_typeOfKind? (found : r.typeOfKind? kind name = some t) : t.kind = kind := by
  unfold Registry.typeOfKind? at found
  split at found
  · simp at found
  · cases known : r.typeNode? (.ofKey name kind.nodeKind) with
    | some u =>
      obtain rfl : u = t := by simpa [known] using found
      exact h.kind_of_typeNode? known
    | none =>
      obtain rfl : .placeholder name kind = t := by simpa [known] using found
      rfl

/-- Only types have the identifiers of types. -/
theorem node?_eq_none_of_typeNode? (missing : r.typeNode? (.ofKey name kind.nodeKind) = none)
    : r.node? (.ofKey name kind.nodeKind) = none := by
  cases found : r.node? (.ofKey name kind.nodeKind) with
  | none => rfl
  | some n =>
    obtain ⟨there, alike⟩ := Registry.alike_of_node? found
    obtain ⟨key, own⟩ := h.named n there
    rw [own] at alike
    have kinds := alike.kind_eq
    cases n with
    | type t => simp [Registry.typeNode?, found, Node.type?] at missing
    | _ => cases kind <;> simp [Node.kind, TypeKind.nodeKind] at kinds

end Tidy

namespace Registry.Respelled

variable {r r' : Registry} {t' : TypeNode}

section

variable (h : r.Respelled r')

include h

theorem symm : r'.Respelled r := ⟨h.same.symm, h.right, h.left⟩

theorem node? (id : NodeId) : (r.node? id).map Node.folded = (r'.node? id).map Node.folded :=
  node?_congr Node.seeing_folded.id h.same id

theorem typeNode? (id : NodeId)
    : (r.typeNode? id).map TypeNode.folded = (r'.typeNode? id).map TypeNode.folded :=
  Node.seeing_folded.typeNode? h.node? id

theorem namespaceNamed (name : String) : r.namespaceNamed name = r'.namespaceNamed name :=
  Node.seeing_folded.namespaceNamed h.node? name

/-- The same types are declared. -/
theorem types : r.types.map TypeNode.id = r'.types.map TypeNode.id := by
  have folds : r.types.map TypeNode.folded = r'.types.map TypeNode.folded := by
    rw [Node.seeing_folded.types, Node.seeing_folded.types, h.same]
  simpa [Function.comp_def, TypeNode.folded] using congrArg (List.map TypeNode.id) folds

/-- A name stands for a declared type of some kind in both registries or in none. -/
theorem typeNode?_lower (kind : TypeKind) (same : Text.lower x = Text.lower y)
    : (r.typeNode? (.ofKey x kind.nodeKind)).map TypeNode.folded
      = (r'.typeNode? (.ofKey y kind.nodeKind)).map TypeNode.folded := by
  rw [h.typeNode?, h.right.typeNode?_eq_of_lower kind same]

end

/-- What names of one kind that are equal up to case stand for is equal up to case. -/
theorem typeOfKind? (kind : TypeKind) (same : Text.lower x = Text.lower y)
    : (r.typeOfKind? kind x).map TypeNode.foldedId = (r'.typeOfKind? kind y).map TypeNode.foldedId := by
  rw [foldedId_typeOfKind?, foldedId_typeOfKind?, Text.isEmpty_of_lower same,
    NodeId.lower_text_inj.mpr ⟨rfl, same⟩]

theorem type? (h : r.Respelled r') (same : Text.lower x = Text.lower y)
    : (r.type? x).map TypeNode.foldedId = (r'.type? y).map TypeNode.foldedId := by
  have interfaces : (r.typeNode? (.interfaceType x)).map TypeNode.folded
      = (r'.typeNode? (.interfaceType y)).map TypeNode.folded := h.typeNode?_lower .interfaceType same
  unfold Registry.type?
  rw [Text.isEmpty_of_lower same]
  split
  · rfl
  · cases found : r.typeNode? (.interfaceType x) with
    | none =>
      obtain missing : r'.typeNode? (.interfaceType y) = none := by simpa [found] using interfaces.symm
      rw [missing]
      exact typeOfKind? .classType same
    | some t =>
      obtain ⟨t', found', folds⟩ := Option.map_eq_some_iff.mp
        (interfaces.symm.trans (congrArg _ found))
      rw [found']
      simp [TypeNode.foldedId, TypeNode.id_eq_of_folded folds]

/-- In one spelling, a name stands for the same type in both registries, placeholders included. -/
theorem folded_type? (h : r.Respelled r') (name : String)
    : (r.type? name).map TypeNode.folded = (r'.type? name).map TypeNode.folded := by
  have both (r : Registry) : (r.type? name).map TypeNode.folded
      = if name.isEmpty then none
        else ((r.typeNode? (.interfaceType name)).map TypeNode.folded).or
          (some (((r.typeNode? (.classType name)).map TypeNode.folded).getD
            (TypeNode.placeholder name .classType).folded)) := by
    unfold Registry.type? Registry.class? Registry.typeOfKind?
    split
    · rfl
    · rw [Option.map_or, Option.map_some, Option.getD_map]
      rfl
  rw [both r, both r', h.typeNode?, h.typeNode?]

theorem id_type? (h : r.Respelled r') (name : String)
    : (r.type? name).map TypeNode.id = (r'.type? name).map TypeNode.id := by
  have both (r : Registry) : (r.type? name).map TypeNode.id
      = ((r.type? name).map TypeNode.folded).map TypeNode.id := by
    rw [Option.map_map]
    rfl
  rw [both r, both r', h.folded_type?]

/-- A declared type is the same in both registries, under any spelling of its name. -/
theorem folded_of_mem (h : r.Respelled r') (standing' : r'.typeAt t'.id = t')
    (same : t.foldedId = t'.foldedId) (there : .type t ∈ r.toList)
    : .type t' ∈ r'.toList ∧ t.folded = t'.folded := by
  obtain ⟨key, named⟩ := h.left.id_eq_of_typeAt (typeAt_of_mem there)
  obtain ⟨key', named'⟩ := h.right.id_eq_of_typeAt standing'
  rw [TypeNode.foldedId, TypeNode.foldedId, named, named', NodeId.lower_text_inj] at same
  obtain ⟨kinds, keys⟩ := same
  have found : r.typeNode? (.ofKey key t.kind.nodeKind) = some t := named ▸ typeNode?_of_mem there
  have found' := h.typeNode?_lower t.kind keys
  rw [found, kinds, ← named'] at found'
  obtain ⟨u, at_u, folds⟩ := Option.map_eq_some_iff.mp found'.symm
  obtain rfl : u = t' := by rw [← standing', typeAt, at_u, Option.getD_some]
  exact ⟨mem_of_typeNode? at_u, folds.symm⟩

variable (h : r.Respelled r') (standing : r.typeAt t.id = t) (standing' : r'.typeAt t'.id = t')
  (same : t.foldedId = t'.foldedId)

include h standing standing' same

/-- Types that are equal up to case have super types that are equal up to case. -/
theorem superTypes
    : (r.superTypes t).map TypeNode.foldedId = (r'.superTypes t').map TypeNode.foldedId := by
  rcases typeAt_cases standing with there | ⟨missing, name, kind, rfl⟩
  · obtain ⟨_, folds⟩ := h.folded_of_mem standing' same there
    have refs := congrArg TypeNode.refs folds
    have parents : (r.parentOf? t).map TypeNode.foldedId = (r'.parentOf? t').map TypeNode.foldedId :=
      map_bind_congr (congrArg TypeRefs.parent refs) fun _ _ => typeOfKind? .classType
    have interfaces : (r.interfacesOf t).map TypeNode.foldedId
        = (r'.interfacesOf t').map TypeNode.foldedId :=
      map_filterMap_congr (congrArg TypeRefs.interfaces refs) fun _ _ => typeOfKind? .interfaceType
    simp only [Registry.superTypes, List.map_append, ← Option.toList_map, parents, interfaces]
  · rcases typeAt_cases standing' with there | ⟨_, name', kind', rfl⟩
    · obtain ⟨back, _⟩ := h.symm.folded_of_mem standing same.symm there
      simp [typeNode?_of_mem back] at missing
    · rfl

/-- Every way to a super type can be gone in both registries. -/
theorem inherits {u : TypeNode} (way : r.Inherits t u)
    : ∃ u', r'.Inherits t' u' ∧ u.foldedId = u'.foldedId := by
  induction way with
  | refl => exact ⟨t', .refl, same⟩
  | @tail v u before above ih =>
    obtain ⟨v', before', ids⟩ := ih
    have supers := h.superTypes (typeAt_of_inherits standing before)
      (typeAt_of_inherits standing' before') ids
    obtain ⟨u', above', ids⟩ := List.mem_map.mp (supers ▸ List.mem_map_of_mem above)
    exact ⟨u', .tail before' above', ids.symm⟩

/-- A type inherits from what is equal up to case in both registries, as long as only one spelling of
it is inherited from. -/
theorem isSubtype {u u' : TypeNode} (goals : u.foldedId = u'.foldedId)
    (single : ∀ v, r'.Inherits t' v → v.foldedId = u'.foldedId → v.id = u'.id)
    (sub : r.isSubtype t u) : r'.isSubtype t' u' := by
  obtain ⟨v, way, here⟩ := (isSubtype_iff standing).mp sub
  obtain ⟨v', way', ids⟩ := h.inherits standing standing' same way
  have goal : v'.foldedId = u'.foldedId := by
    rw [← ids, ← goals, TypeNode.foldedId, TypeNode.foldedId, here]
  exact (isSubtype_iff standing').mpr ⟨v', way', single v' way' goal⟩

end Registry.Respelled

end DesignMetrics
