import DesignMetrics.Proofs.Traversal.Order

/-! Members of types in plain files.
The links of all nodes are what is declared directly inside them, and following them meets every node in
the order of declaration.
-/

namespace DesignMetrics

variable {e : Node × Outline} {o : Outline} {y n : Node} {owner : String} {known : List NodeId}

namespace Outline

theorem mem_nodes_of_mem_entries (h : e ∈ o.entries) : e.1 ∈ o.nodes :=
  o.map_fst_entries ▸ List.mem_map_of_mem h

theorem exists_mem_entries (h : n ∈ o.nodes) : ∃ inside, (n, inside) ∈ o.entries := by
  rw [← map_fst_entries] at h
  obtain ⟨⟨_, inside⟩, member, rfl⟩ := List.mem_map.mp h
  exact ⟨inside, member⟩

/-- A node stands before what is declared inside it. -/
theorem nodes_sublist_of_mem_entries (h : e ∈ o.entries) : (e.1 :: e.2.nodes).Sublist o.nodes := by
  induction o with
  | done => simp at h
  | entry n inside after inside_ih after_ih =>
    rw [entries_entry, List.mem_cons, List.mem_append] at h
    rw [nodes_entry]
    rcases h with rfl | within | later
    · exact (List.sublist_append_left _ _).cons_cons n
    · exact ((inside_ih within).trans (List.sublist_append_left _ _)).cons n
    · exact ((after_ih later).trans (List.sublist_append_right _ _)).cons n

/-- A node that is no root is declared directly inside another one. -/
theorem mem_roots_or_parent (h : y ∈ o.nodes) : y ∈ o.roots ∨ ∃ e ∈ o.entries, y ∈ e.2.roots := by
  induction o with
  | done => simp at h
  | entry n inside after inside_ih after_ih =>
    rw [nodes_entry, List.mem_cons, List.mem_append] at h
    rcases h with rfl | within | later
    · simp
    · rcases inside_ih within with root | ⟨e, member, root⟩
      · exact .inr ⟨(n, inside), by simp, root⟩
      · exact .inr ⟨e, by simp [member], root⟩
    · rcases after_ih later with root | ⟨e, member, root⟩
      · exact .inl (by simp [root])
      · exact .inr ⟨e, by simp [member], root⟩

variable {source : String → Part → Prop}

/-- Every entry of a formed outline stands for a declaration and has the right shape. -/
theorem Formed.of_mem_entries (h : o.Formed source known) (member : e ∈ o.entries)
    : (∃ path p, source path p ∧ Stands path p e.1) ∧ ∃ known, Shaped known e.2 e.1 := by
  induction h with
  | done => simp at member
  | entry origin _ shape _ _ inside_ih after_ih =>
    rw [entries_entry, List.mem_cons, List.mem_append] at member
    rcases member with rfl | within | later
    · exact ⟨origin, _, shape⟩
    · exact inside_ih within
    · exact after_ih later

/-- Entries with the same declared node are one. -/
theorem Formed.entry_unique (h : o.Formed source known) {f : Node × Outline} (left : e ∈ o.entries)
    (right : f ∈ o.entries) (same : e.1 = f.1) (other : e.1.isSpace = false) : e = f := by
  have apart : (o.entries.filter fun e => !e.1.isSpace).Pairwise fun a b => ¬ a.1.id.Alike b.1.id := by
    have pairwise := h.pairwise
    rw [declarations, ← map_fst_entries, List.filter_map, List.pairwise_map] at pairwise
    exact pairwise
  exact NodeId.eq_of_pairwise apart (List.mem_filter.mpr ⟨left, by simp [other]⟩)
    (List.mem_filter.mpr ⟨right, by simp [← same, other]⟩) (same ▸ .refl _)

end Outline

/-- The identifier of a member names the type it belongs to. -/
theorem Stands.namesMember {path : String} {p : Part} (h : Stands path p y)
    (owned : y.owner? = some owner) : Binding.NamesMember owner y.id := by
  cases h with
  | @method _ scope _ d =>
    obtain rfl : scope.name = owner := by
      simpa [Node.owner?, Binding.methodNode] using owned
    exact ⟨.method d, rfl⟩
  | @property _ scope _ d =>
    obtain rfl : scope.name = owner := by
      simpa [Node.owner?, Binding.propertyNode] using owned
    exact ⟨.property d, rfl⟩
  | _ => simp [Node.owner?] at owned

/-- What is declared directly inside is listed in its order. -/
theorem Lists.markers_sublist {ids : List NodeId} (h : Lists known ids o)
    : o.markers.Sublist ids := by
  induction h with
  | done => exact .slnil
  | own kind _ ih | space kind _ ih => simpa [Outline.markers, kind] using ih
  | foreign _ _ ih => exact ih.cons _

section Plain

variable {files : List SourceFile} {r : Registry}

variable {t : TypeNode}

def StandsIn (files : List SourceFile) (n : Node) : Prop :=
  ∃ path p, Sourced files path p ∧ Stands path p n

/-- A declared type has the kind and the name of a type in the files. -/
theorem StandsIn.type_mem (h : StandsIn files (.type t))
    : (∃ file ∈ files, (t.kind, t.qualifiedName) ∈ file.types)
      ∧ t.id = .ofKey t.qualifiedName t.kind.nodeKind := by
  obtain ⟨path, p, ⟨file, inside, _, part⟩, stands⟩ := h
  obtain ⟨name, type, named, _⟩ := stands.members
  have same : t.qualifiedName = name := by simp [TypeNode.qualifiedName, named]
  exact ⟨⟨file, inside, List.mem_filterMap.mpr ⟨p, part, same ▸ type⟩⟩, same ▸ named⟩

theorem Outline.New.standsIn (h : o.New (Sourced files) known) (member : n ∈ o.nodes)
    : StandsIn files n :=
  h.origin_of_mem member

/-- Types of plain files whose names differ in case at most have identifiers that are alike. -/
theorem Plain.alike_of_lower (plain : Plain files) {u : TypeNode} (left : StandsIn files (.type t))
    (right : StandsIn files (.type u))
    (same : Text.lower t.qualifiedName = Text.lower u.qualifiedName) : t.id.Alike u.id := by
  obtain ⟨⟨file, member, type⟩, named⟩ := left.type_mem
  obtain ⟨⟨file', member', type'⟩, named'⟩ := right.type_mem
  have kinds := plain.kinds file member _ type file' member' _ type' same
  rw [named, named', NodeId.alike_ofKey_iff]
  refine ⟨congrArg _ kinds, .inr ⟨?_, same⟩⟩
  cases t.kind <;> simp [TypeKind.nodeKind]

theorem Plain.colon_notMem (plain : Plain files) (h : StandsIn files (.type t))
    : ':' ∉ t.qualifiedName.toList := by
  obtain ⟨⟨file, there, type⟩, _⟩ := h.type_mem
  have bare := plain.names file there (t.kind, t.qualifiedName) type
  exact bare

/-- A member is declared directly inside the type that it names. -/
theorem Outline.Formed.owner_entry {source : String → Part → Prop} (h : o.Formed source known)
    (top : ∀ n ∈ o.roots, n.owner? = none) (declared : y ∈ o.nodes) (owned : y.owner? = some owner)
    : ∃ u inner, (.type u, inner) ∈ o.entries ∧ y ∈ inner.roots ∧ u.qualifiedName = owner := by
  rcases Outline.mem_roots_or_parent declared with root | ⟨⟨n, inner⟩, parent, root⟩
  · simp [top y root] at owned
  · obtain ⟨_, _, shape⟩ := h.of_mem_entries parent
    have scope := shape.owned y root
    rw [owned] at scope
    cases n with
    | type u => exact ⟨u, inner, parent, root, by simpa [Node.scope?] using scope.symm⟩
    | _ => simp [Node.scope?] at scope

section

variable (plain : Plain files) (h : o.Formed (Sourced files) known)
variable (top : ∀ n ∈ o.roots, n.owner? = none)

include plain h top

/-- A member of a type is declared directly inside it: there is no other type with its name. -/
theorem Plain.mem_roots {inside : Outline} (entry : (.type t, inside) ∈ o.entries)
    (declared : y ∈ o.nodes) (owned : y.owner? = some owner)
    (same : Text.lower owner = Text.lower t.qualifiedName) : y ∈ inside.roots := by
  obtain ⟨u, inner, parent, root, rfl⟩ := h.owner_entry top declared owned
  have left := Outline.mem_nodes_of_mem_entries parent
  have right := Outline.mem_nodes_of_mem_entries entry
  have alike := plain.alike_of_lower (h.new.standsIn left) (h.new.standsIn right) same
  obtain rfl : u = t := Node.type.inj (NodeId.eq_of_pairwise h.pairwise
    (mem_declarations.mpr ⟨left, rfl⟩) (mem_declarations.mpr ⟨right, rfl⟩) alike)
  obtain rfl : inner = inside := congrArg Prod.snd (h.entry_unique parent entry rfl rfl)
  exact root

/-- A member that stands for an identifier in the list of a type belongs to a type of this name. -/
theorem Plain.lower_owner (left : .type t ∈ o.nodes) {id : NodeId} (link : id ∈ t.members)
    (declared : y ∈ o.nodes) (owned : y.owner? = some owner) (alike : y.id.Alike id)
    : Text.lower owner = Text.lower t.qualifiedName := by
  obtain ⟨u, _, parent, _, rfl⟩ := h.owner_entry top declared owned
  obtain ⟨_, _, _, stands⟩ := h.origin_of_mem left
  obtain ⟨name, _, named, listed, _⟩ := stands.members
  obtain rfl : t.qualifiedName = name := by simp [TypeNode.qualifiedName, named]
  obtain ⟨_, _, _, stands'⟩ := h.origin_of_mem declared
  have bare := plain.colon_notMem (h.new.standsIn left)
  have bare' := plain.colon_notMem (h.new.standsIn (Outline.mem_nodes_of_mem_entries parent))
  exact (stands'.namesMember owned).lower_eq (listed id link) bare' bare alike

end

/-- A type lists exactly the members that are declared in it. -/
theorem Plain.members_eq (plain : Plain files) (laid : Laid (Sourced files) r o)
    (top : ∀ n ∈ o.roots, n.owner? = none) {inside : Outline}
    (entry : (.type t, inside) ∈ o.entries) : t.members = inside.markers := by
  have node := Outline.mem_nodes_of_mem_entries entry
  obtain ⟨⟨_, _, _, stands⟩, _, shape⟩ := laid.formed.of_mem_entries entry
  obtain ⟨_, _, _, _, apart⟩ := stands.members
  -- A listed identifier stands for a member of a type with this name, and there is no other such type.
  have own : ∀ id ∈ t.members, id ∈ inside.markers := by
    intro id link
    obtain ⟨y, found, admitted⟩ := laid.sound (.type t)
      (laid.mem_iff.mpr ⟨node, rfl⟩).1 id link
    obtain ⟨there, alike⟩ := Registry.alike_of_node? found
    have other : y.isSpace = false := by cases y <;> simp_all [Node.admits, Node.isSpace]
    have declared := (laid.mem_iff.mp ⟨there, other⟩).1
    obtain ⟨owner, owned⟩ : ∃ owner, y.owner? = some owner := by
      cases y <;> simp_all [Node.admits, Node.owner?]
    have root := plain.mem_roots laid.formed top entry declared owned
      (plain.lower_owner laid.formed top node link declared owned alike)
    rw [← NodeId.eq_of_pairwise apart (shape.lists.mem_of_mem_roots root other) link alike]
    exact List.mem_map_of_mem (List.mem_filter.mpr ⟨root, by simp [other]⟩)
  have distinct : t.members.Nodup := by
    refine List.Pairwise.imp ?_ apart
    intro a b different same
    exact different (same ▸ .refl a)
  exact (shape.lists.markers_sublist.eq_of_length_le (distinct.length_le_of_subset own)).symm

/-- The links of a node are what is declared directly inside it. -/
theorem Plain.links_eq (plain : Plain files) (laid : Laid (Sourced files) r o)
    (top : ∀ n ∈ o.roots, n.owner? = none) (member : e ∈ o.entries) : e.1.links = e.2.markers := by
  obtain ⟨n, inside⟩ := e
  obtain ⟨_, _, shape⟩ := laid.formed.of_mem_entries member
  cases n with
  | type t => exact plain.members_eq laid top member
  | _ => exact shape.direct rfl

end Plain

/-- Whether the links of all nodes in an outline are what is declared directly inside them. -/
structure Direct (r : Registry) (o : Outline) : Prop where
  links : ∀ e ∈ o.entries, e.1.links = e.2.markers
  leaf : ∀ e ∈ o.entries, e.1.isSpace → e.2 = .done
  sub : ∀ x ∈ declarations o.nodes, x ∈ declarations r.toList

section Direct

variable {source : String → Part → Prop} {r : Registry} {whole : Outline}

theorem Direct.mono {inner : Outline} (h : Direct r o) (entries : inner.entries ⊆ o.entries)
    (nodes : inner.nodes ⊆ o.nodes) : Direct r inner where
  links e member := h.links e (entries member)
  leaf e member := h.leaf e (entries member)
  sub x member := by
    rw [mem_declarations] at member
    exact h.sub x (mem_declarations.mpr ⟨nodes member.1, member.2⟩)

theorem Direct.inside {inner rest : Outline} (h : Direct r (.entry n inner rest)) : Direct r inner :=
  h.mono (by simp) (by simp)

theorem Direct.after {inner rest : Outline} (h : Direct r (.entry n inner rest)) : Direct r rest :=
  h.mono (by simp) (by simp)

variable (h : Direct r o) (laid : Laid source r whole)

include h laid

/-- What is declared directly inside stands for itself. -/
theorem Direct.node?_marker {id : NodeId} (marker : id ∈ o.markers)
    : ∃ y ∈ declarations o.nodes, r.node? id = some y := by
  obtain ⟨y, member, rfl⟩ := List.mem_map.mp marker
  rw [List.mem_filter] at member
  have declared : y ∈ declarations o.nodes :=
    mem_declarations.mpr ⟨Outline.mem_nodes_of_mem_roots member.1, by simpa using member.2⟩
  exact ⟨y, declared, laid.node?_eq (h.sub y declared) (.refl _)⟩

/-- Direct links lead to what is completed before. -/
theorem Direct.settled (before : List Node) : Settled r before o.post := by
  induction o generalizing before with
  | done => trivial
  | entry n inside after inside_ih after_ih =>
    rw [Outline.post, settled_append, settled_append]
    refine ⟨inside_ih h.inside before, ?_, after_ih h.after _⟩
    split
    · trivial
    · refine ⟨?_, trivial⟩
      rintro y ⟨id, link, found⟩
      rw [h.links (n, inside) (by simp)] at link
      obtain ⟨z, declared, found'⟩ := h.inside.node?_marker laid link
      obtain rfl := Option.some.inj (found.symm.trans found')
      exact List.mem_append_right _ (inside.post_perm.mem_iff.mpr declared)

/-- A tour along direct links meets the nodes of the outline in order. -/
theorem Direct.tours_eq {l : List Node} (tour : Tours r o.markers l) : l = declarations o.nodes := by
  induction o generalizing l with
  | done =>
    cases tour
    rfl
  | entry n inside after inside_ih after_ih =>
    cases kind : n.isSpace with
    | true =>
      obtain rfl := h.leaf (n, inside) (by simp) kind
      simp only [Outline.markers, Outline.roots_entry, List.filter_cons, kind] at tour
      simpa [declarations_cons_of_space kind] using after_ih h.after tour
    | false =>
      simp only [Outline.markers, Outline.roots_entry, List.filter_cons, kind] at tour
      cases tour with
      | cons found inner rest =>
        have here := laid.node?_eq (h.sub n (by simp [declarations, kind])) (.refl _)
        obtain rfl := Option.some.inj (found.symm.trans here)
        rw [h.links (_, inside) (by simp)] at inner
        rw [inside_ih h.inside inner, after_ih h.after rest, Outline.nodes_entry,
          declarations_cons kind, declarations_append]

end Direct

theorem Plain.direct {files : List SourceFile} {r : Registry} (plain : Plain files)
    (laid : Laid (Sourced files) r o) (top : ∀ n ∈ o.roots, n.owner? = none) : Direct r o where
  links _ member := plain.links_eq laid top member
  leaf _ member := by
    obtain ⟨_, _, shape⟩ := laid.formed.of_mem_entries member
    exact shape.leaf
  sub x member := laid.nodes ▸ member

end DesignMetrics
