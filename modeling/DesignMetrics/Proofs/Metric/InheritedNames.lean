import DesignMetrics.Proofs.Metric.DoubleEntry
import DesignMetrics.Proofs.Registry.Folding

/-! References to the names that a type extends or implements.
A name that a type extends stands for a class there, and one that it implements for an interface. A
reference looks for an interface first, then for a class, and takes what it does not find for a class.
Where both come to the same kind, a reference to such a name is one to a super type and couples
nothing. Where they do not, it is coupled like any other.
-/

namespace DesignMetrics

-- Names of super types

/-- Whether a type names another one as its parent or among its interfaces, and for which kind of type
the name stands there.
-/
inductive TypeNode.Extends (t : TypeNode) (name : String) : TypeKind → Prop
  | parent (listed : t.refs.parent = some name) : Extends t name .classType
  | interface (listed : name ∈ t.refs.interfaces) : Extends t name .interfaceType

namespace Tidy

variable {r : Registry} (h : Tidy r) {name : String} {t u : TypeNode}

include h

/-- A reference stands for the interface of its name, or else for the class. -/
theorem type?_cases (found : r.type? name = some u)
    : r.interface? name = some u ∧ r.typeNode? (.interfaceType name) = some u
      ∨ r.class? name = some u ∧ r.node? (.interfaceType name) = none := by
  unfold Registry.type? at found
  split at found
  · simp at found
  · rename_i some_name
    rcases Option.or_eq_some_iff.mp found with interface | ⟨missing, other⟩
    · left
      have known : r.typeNode? (.ofKey name TypeKind.interfaceType.nodeKind) = some u := interface
      exact ⟨by simp [Registry.interface?, Registry.typeOfKind?, some_name, known], interface⟩
    · have missing : r.typeNode? (.ofKey name TypeKind.interfaceType.nodeKind) = none := missing
      have nothing := h.node?_eq_none_of_typeNode? missing
      exact .inr ⟨other, nothing⟩

/-- A reference stands for an interface exactly if one of its name is declared, in any spelling. -/
theorem isInterface_iff (found : r.type? name = some u)
    : u.kind = .interfaceType
      ↔ ∃ i, .type i ∈ r.toList ∧ i.kind = .interfaceType ∧ i.id.Alike (.interfaceType name) := by
  rcases h.type?_cases found with ⟨interface, known⟩ | ⟨other, missing⟩
  · have kind := h.kind_of_typeOfKind? interface
    exact iff_of_true kind ⟨u, Registry.mem_of_typeNode? known, kind, Registry.alike_of_typeNode? known⟩
  · refine iff_of_false (by simp [h.kind_of_typeOfKind? other]) ?_
    rintro ⟨i, there, _, alike⟩
    have found := Registry.node?_isSome_iff.mpr ⟨.type i, there, alike⟩
    simp [missing] at found

/-- What a reference to the name of a super type stands for is this super type, if it is of the kind
that the name stands for.
-/
theorem mem_superTypes_of_extends {kind : TypeKind} (listed : t.Extends name kind)
    (found : r.type? name = some u) (same : u.kind = kind) : u ∈ r.superTypes t := by
  unfold Registry.superTypes
  cases listed with
  | parent listed =>
    rcases h.type?_cases found with ⟨interface, _⟩ | ⟨other, _⟩
    · simp [h.kind_of_typeOfKind? interface] at same
    · simp [Registry.parentOf?, listed, other]
  | interface listed =>
    rcases h.type?_cases found with ⟨interface, _⟩ | ⟨other, _⟩
    · exact List.mem_append_right _ (List.mem_filterMap.mpr ⟨name, listed, interface⟩)
    · simp [h.kind_of_typeOfKind? other] at same

end Tidy

-- Relatives

namespace Registry

variable {r : Registry} {s t : TypeNode}

/-- Whether one of two types leads up to the other. -/
def Kin (r : Registry) (s t : TypeNode) : Prop := r.Inherits s t ∨ r.Inherits t s

theorem isSubtype_iff_inherits (left : r.typeAt s.id = s) (right : r.typeAt t.id = t)
    : r.isSubtype s t ↔ r.Inherits s t := by
  rw [isSubtype_iff left]
  constructor
  · rintro ⟨u, way, same⟩
    obtain rfl : u = t := by rw [← typeAt_of_inherits left way, same, right]
    exact way
  · exact fun way => ⟨t, way, rfl⟩

theorem areRelated_iff (left : r.typeAt s.id = s) (right : r.typeAt t.id = t)
    : Coupling.areRelated r t s ↔ r.Kin s t := by
  rw [Coupling.areRelated, Bool.or_eq_true, isSubtype_iff_inherits right left,
    isSubtype_iff_inherits left right]
  exact or_comm

end Registry

-- References in the scope of a type

namespace Coupling

variable {r : Registry} {c : Coupling} {t u : TypeNode}

/-- Whether the innermost scope is that of a type. -/
def IsIn (c : Coupling) (t : TypeNode) : Prop := c.scopes.head? = some (.type t.id)

section

variable (declared : .type t ∈ r.toList) (standing : r.typeAt u.id = u) (here : c.IsIn t)

include declared standing here

theorem related_iff : (c.currentType? r).any (areRelated r u) ↔ r.Kin t u := by
  have current : c.currentType? r = some t := by
    have head : c.scopes.head? = some (.type t.id) := here
    simp [currentType?, head, CouplingScope.typeId?, Registry.typeNode?_of_mem declared]
  rw [current]
  exact Registry.areRelated_iff (Registry.typeAt_of_mem declared) standing

/-- A reference to a relative changes nothing. -/
theorem couple_of_kin (kin : r.Kin t u) : c.couple r u = c := by
  have head : c.scopes.head? = some (.type t.id) := here
  simp only [couple, head]
  exact if_pos ((related_iff declared standing here).mpr kin)

/-- A reference to any other type is noted at both ends, and counts if it is the first one. -/
theorem couple_of_not_kin (other : ¬ r.Kin t u)
    : c.couple r u = (c.addAfferent u.id t.id).addEfferent t.id u.id := by
  have head : c.scopes.head? = some (.type t.id) := here
  simp only [couple, head]
  rw [if_neg (mt (related_iff declared standing here).mp other)]
  rfl

end

end Coupling

-- References in the course of a walk

/-- Whether code in the scope of a type refers to another type. -/
def ScopeLog.Refers (r : Registry) (l : ScopeLog) (t u : TypeNode) : Prop :=
  ∃ s ∈ l.scopes, s.scope = .type t.id ∧ ∃ v ∈ s.visits, RefersTo r (some t) u v

/-- A type is coupled to what code in its scope refers to, unless they are kin. -/
theorem ScopeLog.edge_iff {r : Registry} {l : ScopeLog} {t u : TypeNode}
    (declared : .type t ∈ r.toList) (standing : r.typeAt u.id = u)
    : l.Edge r (.type t.id) u ↔ l.Refers r t u ∧ ¬ r.Kin t u := by
  have own : CouplingScope.type? r (.type t.id) = some t := Registry.typeNode?_of_mem declared
  have related : CouplingScope.IsRelated r (.type t.id) u ↔ r.Kin t u := by
    rw [CouplingScope.IsRelated, own]
    exact Registry.areRelated_iff (Registry.typeAt_of_mem declared) standing
  constructor
  · rintro ⟨s, member, scope, ⟨v, inside, refers⟩, unrelated⟩
    rw [scope, own, mem_references] at refers
    rw [scope, related] at unrelated
    exact ⟨⟨s, member, scope, v, inside, refers⟩, unrelated⟩
  · rintro ⟨⟨s, member, scope, v, inside, refers⟩, other⟩
    refine ⟨s, member, scope, ⟨v, inside, ?_⟩, ?_⟩
    · rwa [scope, own, mem_references]
    · rwa [scope, related]

section

variable {files : List (SourceFile × String)} {units : List CompilationUnit} {depth : Nat}
variable {events : List Event} {t u : TypeNode}
variable (begun : events <+: (Walk.unitsTo (bindAll ∅ files).2 depth units).events)
variable (declared : .type t ∈ (bindAll ∅ files).2.toList)
variable (standing : (bindAll ∅ files).2.typeAt u.id = u)

include declared standing

/-- What a type depends on is what its scope refers to, unless they are kin. -/
theorem mem_efferent_iff_refers
    : u.id ∈ ((events.foldl (fun c e => c.observe (bindAll ∅ files).2 e)
          ({} : Coupling)).record t.id).efferent
      ↔ (events.foldl ScopeLog.step ⟨[], 0⟩).Refers (bindAll ∅ files).2 t u
        ∧ ¬ (bindAll ∅ files).2.Kin t u := by
  rw [((Reflects.start _).foldl_observe events).edges.efferent, ← ScopeLog.edge_iff declared standing]
  constructor
  · rintro ⟨v, edge, same⟩
    obtain ⟨_, _, _, ⟨_, _, refers⟩, _⟩ := id edge
    obtain rfl : v = u := by rw [← Registry.typeAt_of_mem_references refers, same, standing]
    exact edge
  · exact fun edge => ⟨u, edge, rfl⟩

include begun

/-- The same types know of each other at both ends. -/
theorem mem_afferent_iff_refers
    : t.id ∈ ((events.foldl (fun c e => c.observe (bindAll ∅ files).2 e)
          ({} : Coupling)).record u.id).afferent
      ↔ (events.foldl ScopeLog.step ⟨[], 0⟩).Refers (bindAll ∅ files).2 t u
        ∧ ¬ (bindAll ∅ files).2.Kin t u := by
  have tidy : Tidy (bindAll ∅ files).2 := Tidy.empty.bindAll files
  have known := ScopeLog.registered begun
  obtain ⟨key, own⟩ := tidy.id_eq_of_typeAt (Registry.typeAt_of_mem declared)
  rw [((Reflects.start _).foldl_observe events).edges.afferent, ← ScopeLog.edge_iff declared standing]
  constructor
  · rintro ⟨scope, v, edge, at_t, same⟩
    obtain ⟨_, _, _, ⟨_, _, refers⟩, _⟩ := id edge
    obtain rfl : v = u := by rw [← Registry.typeAt_of_mem_references refers, same, standing]
    have type : scope.id.IsType := ⟨t.kind, by rw [at_t, own, NodeId.kind?_ofKey]⟩
    rw [edge.scope_eq known tidy type, at_t] at edge
    exact edge
  · exact fun edge => ⟨.type t.id, u, edge, rfl, rfl⟩

end

/-- A reference from the scope of a declared type to a name that it extends or implements stands for an
interface exactly if one of this name is declared. Where this is the kind that the name stands for in
the list of the type, the reference changes nothing, and the two are coupled in no course of a walk.
Otherwise they are coupled as soon as the scope refers to the name, unless one of them leads up to the
other in another way, and the first such reference counts in the fanout.
-/
theorem inherited_name_coupled_iff (files : List (SourceFile × String))
    (units : List CompilationUnit) (depth : Nat) (events : List Event)
    (begun : events <+: (Walk.unitsTo (bindAll ∅ files).2 depth units).events)
    {t u : TypeNode} {name : String} {kind : TypeKind}
    (declared : .type t ∈ (bindAll ∅ files).2.toList) (listed : t.Extends name kind)
    (found : (bindAll ∅ files).2.type? name = some u)
    : let r := (bindAll ∅ files).2
      let c := events.foldl (fun c e => c.observe r e) ({} : Coupling)
      let refers := (events.foldl ScopeLog.step ⟨[], 0⟩).Refers r t u
      (u.kind = .interfaceType
        ↔ ∃ i, .type i ∈ r.toList ∧ i.kind = .interfaceType ∧ i.id.Alike (.interfaceType name))
      ∧ (u.kind = kind ∨ r.Kin t u → ∀ c : Coupling, c.IsIn t → c.couple r u = c)
      ∧ (u.id ∈ (c.record t.id).efferent ↔ refers ∧ u.kind ≠ kind ∧ ¬ r.Kin t u)
      ∧ (t.id ∈ (c.record u.id).afferent ↔ refers ∧ u.kind ≠ kind ∧ ¬ r.Kin t u)
      ∧ (¬ r.Kin t u → ∀ c : Coupling, c.IsIn t → t.id ∉ (c.record u.id).afferent
          → (c.couple r u).fanout = c.fanout + 1) := by
  intro r c refers
  have tidy : Tidy r := Tidy.empty.bindAll files
  have standing : r.typeAt u.id = u := Registry.typeAt_type? found
  have kin (same : u.kind = kind) : r.Kin t u :=
    .inl (.single (tidy.mem_superTypes_of_extends listed found same))
  have apart : refers ∧ u.kind ≠ kind ∧ ¬ r.Kin t u ↔ refers ∧ ¬ r.Kin t u :=
    and_congr_right fun _ => and_iff_right_of_imp (mt kin)
  refine ⟨tidy.isInterface_iff found, fun either c here => ?_, ?_, ?_, fun other c here fresh => ?_⟩
  · exact Coupling.couple_of_kin declared standing here (either.elim kin id)
  · exact (mem_efferent_iff_refers declared standing).trans apart.symm
  · exact (mem_afferent_iff_refers begun declared standing).trans apart.symm
  · rw [Coupling.couple_of_not_kin declared standing here other]
    exact if_neg fresh

def taking (parent : Option String) (interfaces names : List String) : ClassDecl :=
  ⟨"A", .none, parent, interfaces, [.method ⟨"m", .isPublic,
    names.map fun name => ⟨"x", some (.named name), none, false, false⟩, none, [], some [], ⟨3, 3⟩⟩],
    ⟨2, 4⟩⟩

def adapter : SourceFile :=
  ⟨"a.php", [.interfaceDecl ⟨"I", [], [], ⟨1, 1⟩⟩,
    .classDecl (taking (some "Base") ["i", "Ext"] ["Base", "i", "Ext"])]⟩

/-- The class is coupled to the interface that is not declared, and to none of the others. -/
theorem inherited_name_coupled_adapter
    : let r := (bindAll ∅ [(adapter, "")]).2
      let walk := Walk.unitsTo r 1 (bindAll ∅ [(adapter, "")]).1
      let c := walk.events.foldl (fun c e => c.observe r e) ({} : Coupling)
      let t := Binding.classNode "a.php" (taking (some "Base") ["i", "Ext"] ["Base", "i", "Ext"])
      .type t ∈ r.toList ∧ t.Extends "Base" .classType ∧ t.Extends "i" .interfaceType
      ∧ t.Extends "Ext" .interfaceType ∧ .classType "Base" ∉ (c.record t.id).efferent
      ∧ .interfaceType "I" ∉ (c.record t.id).efferent
      ∧ .classType "Ext" ∈ (c.record t.id).efferent
      ∧ t.id ∈ (c.record (.classType "Ext")).afferent
      ∧ ¬ r.Kin t (.placeholder "Ext" .classType) := by
  intro r walk c t
  have declared : .type t ∈ r.toList :=
    Registry.mem_of_typeNode? (show r.typeNode? (.classType "A") = some t from rfl)
  have parent : t.Extends "Base" .classType := .parent rfl
  have known : t.Extends "i" .interfaceType := .interface (by simp [t, Binding.classNode, taking])
  have outside : t.Extends "Ext" .interfaceType := .interface (by simp [t, Binding.classNode, taking])
  obtain ⟨_, _, base, _⟩ := inherited_name_coupled_iff [(adapter, "")] _ 1 walk.events
    (List.prefix_refl _) (u := .placeholder "Base" .classType) declared parent rfl
  obtain ⟨_, _, interface, _⟩ := inherited_name_coupled_iff [(adapter, "")] _ 1 walk.events
    (List.prefix_refl _) (u := Binding.interfaceNode "a.php" ⟨"I", [], [], ⟨1, 1⟩⟩) declared known rfl
  obtain ⟨_, _, other, back, _⟩ := inherited_name_coupled_iff [(adapter, "")] _ 1 walk.events
    (List.prefix_refl _) (u := .placeholder "Ext" .classType) declared outside rfl
  have coupled : .classType "Ext" ∈ (c.record t.id).efferent := by decide +kernel
  exact ⟨declared, parent, known, outside, fun edge => (base.mp edge).2.1 rfl,
    fun edge => (interface.mp edge).2.1 rfl, coupled, back.mpr (other.mp coupled),
    (other.mp coupled).2.2⟩

def outsider : SourceFile := ⟨"a.php", [.classDecl (taking none ["Ext"] ["Ext"])]⟩

/-- It is coupled to its own interface, at both ends, and this counts in the fanout. -/
theorem coupled_to_own_interface
    : let r := (bindAll ∅ [(outsider, "")]).2
      let c := (Walk.units r (bindAll ∅ [(outsider, "")]).1).events.foldl (fun c e => c.observe r e)
        ({} : Coupling)
      ∃ t u, .type t ∈ r.toList ∧ t.id = .classType "A" ∧ t.Extends "Ext" .interfaceType
        ∧ r.type? "Ext" = some u ∧ u.id ∈ (c.record t.id).efferent
        ∧ t.id ∈ (c.record u.id).afferent ∧ c.fanout = 1 := by
  intro r c
  refine ⟨Binding.classNode "a.php" (taking none ["Ext"] ["Ext"]), .placeholder "Ext" .classType,
    Registry.mem_of_typeNode? (show r.typeNode? (.classType "A") = some _ from rfl), rfl, .interface ?_,
    rfl, ?_⟩
  · simp [Binding.classNode, taking]
  · decide +kernel

end DesignMetrics
