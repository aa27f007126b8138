import DesignMetrics.Proofs.Binding.Steady
import DesignMetrics.Proofs.Model.Recovery
import DesignMetrics.Proofs.Registry.Agreement
import DesignMetrics.Proofs.Registry.Finals
import DesignMetrics.Proofs.Traversal.Members

/-! Snapshots of files.
A file in which nothing is shadowed has one snapshot, whatever was there when it was bound, and
attaching the snapshot where its declarations are free does what binding the file does. In plain
files it is enough that the types and functions of the snapshot are free.
-/

namespace DesignMetrics

def SourceFile.snapshot (file : SourceFile) (fingerprint : String) : Snapshot :=
  ⟨⟨file.path, fingerprint, (file.draft []).value, (file.draft []).outline.ids, []⟩,
    finals (file.draft []).outline.nodes⟩

variable {n : Node} {fingerprint : String}

/-- What binding makes of a source does not come from the cache. -/
theorem Stands.bare_eq {path : String} {p : Part} (h : Stands path p n) : n.bare = n := by
  cases h <;> rfl

/-- An identifier that has just been registered stands for the last node with it. -/
theorem Registry.node?_eq_latest? {r : Registry} {nodes new : List Node}
    (filled : r.toList = upsertAll nodes new) {id : NodeId} (h : id ∈ new.map Node.id)
    : r.node? id = latest? new id := by
  obtain ⟨n, there, rfl⟩ := List.mem_map.mp h
  obtain ⟨m, found⟩ := latest?_isSome there
  rw [node?_eq, filled, find?_upsertAll, found]
  rfl

section

variable {file : SourceFile} {known : List NodeId} {r : Registry}

/-- A draft in which nothing is shadowed is the one after no identifiers. -/
theorem SourceFile.draft_eq_of_clean (clean : (file.draft known).shadowed = [])
    : file.draft [] = file.draft known :=
  file.steady_draft.same known [] clean fun _ _ => not_taken_nil _

/-- A draft whose declarations are all free is the one after no identifiers. -/
theorem SourceFile.draft_eq_of_free (clean : (file.draft []).shadowed = [])
    (free : ∀ n ∈ declarations (file.draft []).outline.nodes, ¬ Taken known n.id)
    : file.draft known = file.draft [] :=
  file.steady_draft.same [] known clean free

/-- The snapshot that is taken after a file was bound without shadowing depends on the file alone. -/
theorem SourceFile.collect_bind (tracks : Tracks known r) (fingerprint : String)
    (clean : (file.bind fingerprint r).1.shadowed = [])
    : (file.draft []).shadowed = []
      ∧ Snapshot.collect (file.bind fingerprint r).1 (file.bind fingerprint r).2
        = file.snapshot fingerprint := by
  obtain ⟨r', ran, nodes, _⟩ := file.bind_eq tracks fingerprint
  rw [ran] at clean ⊢
  have same := draft_eq_of_clean clean
  have collected : (file.draft known).outline.ids.filterMap r'.node?
      = finals (file.draft known).outline.nodes :=
    List.filterMap_congr fun id member => Registry.node?_eq_latest? nodes member
  refine ⟨same ▸ clean, ?_⟩
  have clean : (file.draft known).shadowed = [] := clean
  simp only [Snapshot.collect, snapshot, collected, clean, same]

/-- The nodes of a snapshot stand for declarations in its file. -/
theorem SourceFile.mem_snapshot {files : List SourceFile} (here : file ∈ files)
    (member : n ∈ (file.snapshot fingerprint).nodes)
    : ∃ path p, Sourced files path p ∧ Stands path p n :=
  (file.newIn_draft here []).new.origin_of_mem (finals_subset _ member)

theorem SourceFile.bare_snapshot (file : SourceFile) (fingerprint : String)
    : (file.snapshot fingerprint).bare = file.snapshot fingerprint := by
  have same : (file.snapshot fingerprint).nodes.map Node.bare
      = (file.snapshot fingerprint).nodes := by
    conv_rhs => rw [← List.map_id (file.snapshot fingerprint).nodes]
    refine List.map_congr_left fun n member => ?_
    obtain ⟨_, _, _, stands⟩ := file.mem_snapshot (List.mem_singleton_self file) member
    exact stands.bare_eq
  simp only [Snapshot.bare, same]

end

section

variable {file : SourceFile} {known : List NodeId} {r r' : Registry}

theorem Registry.Agree.tracks (h : r.Agree r') (tracks : Tracks known r') : Tracks known r where
  ids id := by rw [h.ids, tracks.ids]
  own n member := by
    have bare : n.bare ∈ r'.toList.map Node.bare := h ▸ List.mem_map_of_mem member
    obtain ⟨n', there, same⟩ := List.mem_map.mp bare
    have equal : n.isUserDefined = n'.isUserDefined := by
      simpa using (congrArg Node.isUserDefined same).symm
    rw [equal]
    exact tracks.own n' there

/-- A file is bound alike in registries that agree. -/
theorem SourceFile.bind_agree (agree : r.Agree r') (tracks : Tracks known r') (fingerprint : String)
    : (file.bind fingerprint r).1 = (file.bind fingerprint r').1
      ∧ (file.bind fingerprint r).2.Agree (file.bind fingerprint r').2 := by
  obtain ⟨s, ran, nodes, _⟩ := file.bind_eq (agree.tracks tracks) fingerprint
  obtain ⟨s', ran', nodes', _⟩ := file.bind_eq tracks fingerprint
  rw [ran, ran']
  refine ⟨rfl, ?_⟩
  rw [Registry.Agree, nodes, nodes', map_bare_upsertAll, map_bare_upsertAll, agree]

/-- Attaching the snapshot of a file whose declarations are free is binding the file. -/
theorem SourceFile.attach_agree (agree : r.Agree r') (tracks : Tracks known r')
    (clean : (file.draft []).shadowed = [])
    (free : ∀ n ∈ declarations (file.draft []).outline.nodes, ¬ Taken known n.id)
    (fingerprint : String)
    : (file.snapshot fingerprint).unit = (file.bind fingerprint r').1
      ∧ ((file.snapshot fingerprint).attach r).Agree (file.bind fingerprint r').2 := by
  obtain ⟨s', ran, nodes, _⟩ := file.bind_eq tracks fingerprint
  have same := draft_eq_of_free clean free
  rw [ran, same]
  refine ⟨by rw [snapshot, clean], ?_⟩
  have unmarked : ((file.snapshot fingerprint).nodes.map (Node.withCached true)).map Node.bare
      = (file.snapshot fingerprint).nodes.map Node.bare := by
    simp [Function.comp_def]
  have finalNodes := congrArg (List.map Node.bare)
    (Registry.toList_registerAll_finals r (file.draft []).outline.nodes)
  rw [Registry.toList_registerAll, Registry.toList_registerAll, map_bare_upsertAll,
    map_bare_upsertAll] at finalNodes
  rw [Registry.Agree, Snapshot.attach, Registry.toList_registerAll, map_bare_upsertAll, unmarked]
  rw [nodes, same, map_bare_upsertAll, ← agree]
  exact finalNodes

end

section

variable {files : List SourceFile} {file : SourceFile} {known : List NodeId} {r : Registry}
  {o : Outline}

/-- A declared node is the only one with its identifier. -/
theorem Outline.New.latest?_eq {source : String → Part → Prop} (h : o.New source known)
    (member : n ∈ declarations o.nodes)
    : latest? o.nodes n.id = some n := by
  obtain ⟨there, other⟩ := mem_declarations.mp member
  obtain ⟨m, found⟩ := latest?_isSome there
  obtain ⟨inside, same⟩ := mem_of_latest? found
  obtain ⟨_, _, _, stands⟩ := h.origin_of_mem there
  obtain ⟨_, _, _, stands'⟩ := h.origin_of_mem inside
  have alike : m.id.Alike n.id := same ▸ .refl _
  have declared : m ∈ declarations o.nodes :=
    mem_declarations.mpr ⟨inside, isSpace_of_alike stands.id_eq stands'.id_eq alike other⟩
  rw [found, NodeId.eq_of_pairwise h.pairwise declared member alike]

/-- Exactly the declared nodes of a file are nodes of its snapshot that are no namespaces. -/
theorem SourceFile.mem_declarations_snapshot
    : n ∈ declarations (file.snapshot fingerprint).nodes
      ↔ n ∈ declarations (file.draft []).outline.nodes := by
  have new := (file.newIn_draft (List.mem_singleton_self file) []).new
  constructor
  · intro kept
    obtain ⟨inside, other⟩ := mem_declarations.mp kept
    exact mem_declarations.mpr ⟨finals_subset _ inside, other⟩
  · intro member
    obtain ⟨there, other⟩ := mem_declarations.mp member
    exact mem_declarations.mpr ⟨List.mem_filterMap.mpr
      ⟨n.id, List.mem_map_of_mem there, new.latest?_eq member⟩, other⟩

/-- What is not a namespace is in a snapshot if it is declared in its file. -/
theorem SourceFile.exists_mem_snapshot_iff {p : Node → Prop} (other : ∀ n, p n → n.isSpace = false)
    (fingerprint : String)
    : (∃ n ∈ (file.snapshot fingerprint).nodes, p n)
      ↔ ∃ n ∈ declarations (file.draft []).outline.nodes, p n := by
  have kept (n : Node) : n ∈ declarations (file.snapshot fingerprint).nodes ↔ _ :=
    file.mem_declarations_snapshot
  simp only [← kept, mem_declarations, and_assoc]
  exact exists_congr fun n => and_congr_right fun _ => (and_iff_right_of_imp (other n)).symm

/-- A snapshot conflicts exactly if one of its types and functions is taken. -/
theorem SourceFile.conflicts_iff (tracks : Tracks known r) (fingerprint : String)
    : (file.snapshot fingerprint).conflicts r
      ↔ ∃ n ∈ declarations (file.draft []).outline.nodes, Snapshot.isDeclaration n ∧ Taken known n.id := by
  simp only [Snapshot.conflicts, List.any_eq_true, Bool.and_eq_true, tracks.isDeclared_iff]
  refine file.exists_mem_snapshot_iff (fun n kind => ?_) fingerprint
  cases n <;> first | rfl | simp [Snapshot.isDeclaration] at kind

/-- What declares anything declares a type or a function: members are declared inside types. -/
theorem Outline.New.exists_isDeclaration {source : String → Part → Prop} (h : o.New source known)
    (top : ∀ n ∈ o.roots, n.owner? = none) (some : declarations o.nodes ≠ [])
    : ∃ n ∈ declarations o.nodes, Snapshot.isDeclaration n := by
  induction h with
  | done => simp at some
  | @entry known node inside after _ _ owned _ _ inside_ih after_ih =>
    rw [nodes_entry] at some ⊢
    cases kind : node.isSpace with
    | true =>
      have outer : node.scope? = none := by cases node <;> simp [Node.isSpace, Node.scope?] at kind ⊢
      rw [declarations_cons_of_space kind, declarations_append] at some ⊢
      by_cases empty : declarations inside.nodes = []
      · rw [empty, List.nil_append] at some ⊢
        exact after_ih (fun n member => top n (List.mem_cons_of_mem _ member)) some
      · obtain ⟨n, member, found⟩ := inside_ih (fun n member => (owned n member).trans outer) empty
        exact ⟨n, List.mem_append_left _ member, found⟩
    | false =>
      have free := top node List.mem_cons_self
      have found : Snapshot.isDeclaration node := by
        cases node <;> simp [Node.isSpace, Node.owner?, Snapshot.isDeclaration] at kind free ⊢
      rw [declarations_cons kind]
      exact ⟨node, List.mem_cons_self, found⟩

/-- What is alike a member is a member. -/
theorem Stands.owner?_of_alike {path path' : String} {p p' : Part} {y z : Node} {owner : String}
    (left : Stands path p y) (right : Stands path' p' z) (alike : y.id.Alike z.id)
    (owned : z.owner? = some owner) : ∃ owner', y.owner? = some owner' := by
  have kinds : y.kind = z.kind := by
    obtain ⟨_, named⟩ := left.id_eq
    obtain ⟨_, named'⟩ := right.id_eq
    rw [named, named'] at alike
    exact alike.kind_eq
  have members (n : Node) : n.owner?.isSome ↔ n.kind = .method ∨ n.kind = .property := by
    cases n with
    | type t => cases kind : t.kind <;> simp [Node.owner?, Node.kind, TypeKind.nodeKind, kind]
    | _ => simp [Node.owner?, Node.kind]
  rw [← Option.isSome_iff_exists, members, kinds, ← members, owned]
  rfl

/-- If the types and functions of a plain file are free, its members are free as well: a member that
is there already belongs to a type with the name of its own. -/
theorem Plain.free_of_conflicts (plain : Plain files) (member : file ∈ files)
    (new : o.NewIn (Sourced files) none []) (filled : r.toList = upsertAll [] o.nodes)
    (tracks : Tracks known r) (none : (file.snapshot fingerprint).conflicts r = false)
    : ∀ n ∈ declarations (file.draft []).outline.nodes, ¬ Taken known n.id := by
  have drafted := file.newIn_draft member []
  have free {n : Node} (inside : n ∈ declarations (file.draft []).outline.nodes)
      (kind : Snapshot.isDeclaration n) : ¬ Taken known n.id := by
    intro taken
    have conflict := (file.conflicts_iff tracks fingerprint).mpr ⟨n, inside, kind, taken⟩
    simp [none] at conflict
  intro n inside taken
  cases owned : n.owner? with
  | none =>
    have kind : Snapshot.isDeclaration n := by
      cases n with
      | space s => simp [declarations, Node.isSpace] at inside
      | type | function => rfl
      | method | property => simp [Node.owner?] at owned
    exact free inside kind taken
  | some owner =>
    have there := (mem_declarations.mp inside).1
    obtain ⟨_, _, _, stands⟩ := drafted.new.origin_of_mem there
    obtain ⟨id, at_id, alike⟩ := taken
    obtain ⟨y, at_y, rfl⟩ := List.mem_map.mp ((tracks.ids id).mpr at_id)
    have at_o : y ∈ o.nodes := by
      rw [filled] at at_y
      exact (mem_of_mem_upsertAll at_y).resolve_left (by simp)
    obtain ⟨_, _, _, stands'⟩ := new.new.origin_of_mem at_o
    obtain ⟨owner', owned'⟩ := stands'.owner?_of_alike stands alike owned
    obtain ⟨u, at_u, rfl⟩ := drafted.exists_owner there owned
    obtain ⟨u', at_u', rfl⟩ := new.exists_owner at_o owned'
    have type := drafted.new.standsIn at_u
    have type' := new.new.standsIn at_u'
    have lower := (stands'.namesMember owned').lower_eq (stands.namesMember owned)
      (plain.colon_notMem type') (plain.colon_notMem type) alike
    have types := plain.alike_of_lower type' type lower
    have known : u'.id ∈ known := by
      rw [← tracks.ids, filled]
      exact mem_ids_upsertAll.mpr (.inr (List.mem_map_of_mem at_u'))
    exact free (mem_declarations.mpr ⟨at_u, rfl⟩) rfl ⟨u'.id, known, types⟩

end

end DesignMetrics
