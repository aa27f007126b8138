import DesignMetrics.Proofs.Binding.Files
import DesignMetrics.Proofs.Traversal.Tour

/-! Where links lead in a registry that was filled by binding.
A link leads to something that was declared directly inside, or to a member that was there before, which
can lead back only to a method around the type that lists it.
-/

namespace DesignMetrics

/-- Whether a registry holds the nodes of an outline and no others. -/
structure Laid (source : String → Part → Prop) (r : Registry) (o : Outline) : Prop where
  formed : o.Formed source []
  nodes : declarations r.toList = declarations o.nodes
  ids : ∀ k ∈ o.ids, k ∈ r.toList.map Node.id
  named : ∀ n ∈ r.toList, ∃ key, n.id = .ofKey key n.kind

variable {o : Outline} {source : String → Part → Prop} {known : List NodeId} {n y x : Node}
  {id : NodeId} {r : Registry} {before l : List Node}

theorem Bound.laid {files : List SourceFile} {bound : List CompilationUnit × Registry}
    (h : Bound files [] ∅ bound o) : Laid (Sourced files) bound.2 o where
  formed := h.marks.formed
  nodes := by
    rw [h.nodes, Registry.toList_empty, h.marks.formed.new.declarations_upsertAll (by simp)]
    rfl
  ids k member := by
    rw [h.nodes, mem_ids_upsertAll]
    exact .inr member
  named n member := by
    rw [h.nodes, Registry.toList_empty] at member
    rcases mem_of_mem_upsertAll member with none | there
    · simp at none
    · obtain ⟨_, _, _, stands⟩ := h.marks.formed.origin_of_mem there
      exact stands.id_eq

theorem Outline.Formed.pairwise (h : o.Formed source known)
    : (declarations o.nodes).Pairwise fun a b => ¬ a.id.Alike b.id :=
  h.new.pairwise

namespace Laid

section

variable (laid : Laid source r o)

include laid

theorem mem_iff : n ∈ r.toList ∧ n.isSpace = false ↔ n ∈ o.nodes ∧ n.isSpace = false := by
  rw [← mem_declarations, laid.nodes, mem_declarations]

/-- Declared nodes that are alike are one. -/
theorem eq_of_alike {a b : Node} (left : a ∈ declarations r.toList)
    (right : b ∈ declarations r.toList) (alike : a.id.Alike b.id) : a = b := by
  have apart := laid.formed.pairwise
  rw [← laid.nodes] at apart
  exact NodeId.eq_of_pairwise apart left right alike

/-- A node that is alike a declared one is this node. -/
theorem eq_declared {z : Node} (there : y ∈ declarations r.toList) (inside : z ∈ r.toList)
    (alike : z.id.Alike y.id) : z = y := by
  obtain ⟨member, other⟩ := mem_declarations.mp there
  have same := isSpace_of_alike (laid.named y member) (laid.named z inside) alike other
  exact laid.eq_of_alike (mem_declarations.mpr ⟨inside, same⟩) there alike

/-- An identifier stands for the only declared node that it is alike. -/
theorem node?_eq (member : n ∈ declarations r.toList) (alike : n.id.Alike id) : r.node? id = some n :=
  Registry.node?_eq_some_of_only (mem_declarations.mp member).1 alike fun _ inside other =>
    laid.eq_declared member inside (other.trans alike.symm)

/-- An identifier that is known stands for a node with one of the known identifiers. -/
theorem node?_of_taken (ids : ∀ k ∈ known, k ∈ r.toList.map Node.id) {key : String} {kind : NodeKind}
    (other : kind ≠ .space) (taken : Taken known (.ofKey key kind))
    : ∃ y ∈ declarations r.toList, r.node? (.ofKey key kind) = some y ∧ y.id ∈ known
      ∧ y.kind = kind := by
  obtain ⟨k, member, alike⟩ := taken
  obtain ⟨y, there, rfl⟩ := List.mem_map.mp (ids k member)
  obtain ⟨key', named⟩ := laid.named y there
  have kinds : y.kind = kind := by
    rw [named] at alike
    exact alike.kind_eq
  have declared : y ∈ declarations r.toList := by
    refine mem_declarations.mpr ⟨there, ?_⟩
    rw [Bool.eq_false_iff, ne_eq, Node.isSpace_iff, kinds]
    exact other
  exact ⟨y, declared, laid.node?_eq declared alike, member, kinds⟩

end

end Laid

/-- The members that a declared type lists. -/
theorem Stands.members {path : String} {p : Part} {t : TypeNode} (h : Stands path p (.type t))
    : ∃ name, p.type? = some (t.kind, name) ∧ t.id = .ofKey name t.kind.nodeKind
      ∧ (∀ id ∈ t.members, Binding.NamesMember name id)
      ∧ t.members.Pairwise fun a b => ¬ a.Alike b := by
  cases h with
  | classType d | interfaceType d =>
    exact ⟨d.name, rfl, rfl, fun _ => Binding.memberIds_named, Binding.memberIds_pairwise _ _⟩

namespace Lists

variable {ids : List NodeId}

/-- Everything that is declared directly is listed, namespaces apart. -/
theorem mem_of_mem_roots (h : Lists known ids o) (member : n ∈ o.roots) (other : n.isSpace = false)
    : n.id ∈ ids := by
  induction h with
  | done => simp at member
  | own _ _ ih =>
    rcases List.mem_cons.mp member with rfl | later
    · simp
    · exact List.mem_cons_of_mem _ (ih later)
  | space space _ ih =>
    rcases List.mem_cons.mp member with rfl | later
    · simp [other] at space
    · exact ih later
  | foreign _ _ ih => exact List.mem_cons_of_mem _ (ih member)

/-- All that is listed is taken at the end. -/
theorem taken (h : Lists known ids o) : ∀ id ∈ ids, Taken (known ++ o.ids) id := by
  induction h with
  | done => simp
  | own _ _ ih =>
    intro id member
    rcases List.mem_cons.mp member with rfl | later
    · exact taken_of_mem (by simp)
    · simpa using ih id later
  | space _ _ ih => simpa using ih
  | foreign taken _ ih =>
    intro id member
    rcases List.mem_cons.mp member with rfl | later
    · exact taken_append.mpr (.inl taken)
    · exact ih id later

/-- Before the first declaration, only identifiers from before can be listed. -/
theorem of_entry {inside after : Outline} (h : Lists known ids (.entry n inside after))
    : ∃ before rest, ids = before ++ ((if n.isSpace then [] else [n.id]) ++ rest)
      ∧ (∀ id ∈ before, Taken known id)
      ∧ Lists (known ++ n.id :: inside.ids) rest after := by
  generalize whole : Outline.entry n inside after = o at h
  induction h with
  | done => simp at whole
  | own kind rest | space kind rest =>
    obtain ⟨rfl, rfl, rfl⟩ := Outline.entry.inj whole
    exact ⟨[], _, by simp [kind], by simp, rest⟩
  | @foreign known ids id _ taken _ ih =>
    obtain ⟨before, rest, rfl, old, lists⟩ := ih whole
    refine ⟨id :: before, rest, by simp, fun k member => ?_, lists⟩
    rcases List.mem_cons.mp member with rfl | later
    · exact taken
    · exact old k later

end Lists

/-- Where an entry of the outline stands: its nodes are in the registry, in this order. -/
structure Placed (r : Registry) (known : List NodeId) (o : Outline) : Prop where
  sub : (declarations o.nodes).Sublist (declarations r.toList)
  ids : ∀ k ∈ known ++ o.ids, k ∈ r.toList.map Node.id

namespace Placed

variable {inner rest : Outline}

theorem inside (h : Placed r known (.entry n inner rest)) : Placed r (known ++ [n.id]) inner where
  sub := by
    refine List.Sublist.trans ?_ h.sub
    rw [Outline.nodes_entry]
    exact ((List.sublist_append_left _ _).cons n).filter _
  ids k member := h.ids k (by simp at member ⊢; grind)

theorem after (h : Placed r known (.entry n inner rest))
    : Placed r (known ++ n.id :: inner.ids) rest where
  sub := by
    refine List.Sublist.trans ?_ h.sub
    rw [Outline.nodes_entry]
    exact ((List.sublist_append_right _ _).cons n).filter _
  ids k member := h.ids k (by simp at member ⊢; grind)

theorem mem (h : Placed r known (.entry n inner rest)) (other : n.isSpace = false)
    : n ∈ declarations r.toList := by
  apply h.sub.subset
  rw [Outline.nodes_entry, declarations_cons other]
  exact List.mem_cons_self

theorem mem_of_mem (h : Placed r known o) (member : x ∈ o.nodes) (other : x.isSpace = false)
    : x ∈ declarations r.toList :=
  h.sub.subset (mem_declarations.mpr ⟨member, other⟩)

end Placed

theorem Laid.placed (laid : Laid source r o) : Placed r [] o where
  sub := laid.nodes ▸ List.Sublist.refl _
  ids := by simpa using laid.ids

theorem Outline.roots_sublist (o : Outline) : o.roots.Sublist o.nodes := by
  induction o with
  | done => exact .slnil
  | entry n inside after _ ih => exact (ih.trans (List.sublist_append_right _ _)).cons_cons n

theorem Outline.mem_nodes_of_mem_roots (h : n ∈ o.roots) : n ∈ o.nodes :=
  o.roots_sublist.subset h

/-- A declared node with an identifier of the outline is in the outline. -/
theorem Placed.mem_nodes {whole : Outline} (placed : Placed r known o) (laid : Laid source r whole)
    (formed : o.Formed source known) (there : y ∈ declarations r.toList) (id : y.id ∈ o.ids)
    : y ∈ o.nodes := by
  obtain ⟨z, member, same⟩ := List.mem_map.mp id
  obtain ⟨_, _, _, stands⟩ := formed.origin_of_mem member
  obtain ⟨inside, declared⟩ := mem_declarations.mp there
  have other := isSpace_of_alike (laid.named y inside) stands.id_eq (same ▸ .refl _) declared
  rw [laid.eq_of_alike there (placed.mem_of_mem member other) (same ▸ .refl _)]
  exact member

section Links

variable {whole : Outline}
variable {inside after : Outline}

section

variable (laid : Laid source r whole)

include laid

/-- A node leads to everything that is declared directly inside it. -/
theorem leads_root (placed : Placed r known (.entry n inside after))
    (shape : Outline.Shaped known inside n) (root : y ∈ inside.roots) (other : y.isSpace = false)
    : Leads r n y :=
  ⟨y.id, shape.lists.mem_of_mem_roots root other, laid.node?_eq
    (placed.inside.mem_of_mem (Outline.mem_nodes_of_mem_roots root) other) (.refl _)⟩

/-- A member list leads to methods and properties that were there before or are declared inside. -/
theorem member_found {t : TypeNode} (origin : ∃ path p, source path p ∧ Stands path p (.type t))
    (link : id ∈ t.members) (ids : ∀ k ∈ known, k ∈ r.toList.map Node.id) (taken : Taken known id)
    : ∃ y ∈ declarations r.toList, r.node? id = some y ∧ (Node.type t).admits y ∧ y.id ∈ known := by
  obtain ⟨_, _, _, stands⟩ := origin
  obtain ⟨name, _, _, members, _⟩ := stands.members
  have found : ∃ y ∈ declarations r.toList, r.node? id = some y ∧ y.id ∈ known
      ∧ (y.kind = .method ∨ y.kind = .property) := by
    obtain ⟨m, own⟩ := members id link
    rcases Binding.memberId?_cases own with ⟨m, rfl⟩ | ⟨q, rfl⟩
    · obtain ⟨y, there, at_y, known, kind⟩ := laid.node?_of_taken ids (by simp) taken
      exact ⟨y, there, at_y, known, .inl kind⟩
    · obtain ⟨y, there, at_y, known, kind⟩ := laid.node?_of_taken ids (by simp) taken
      exact ⟨y, there, at_y, known, .inr kind⟩
  obtain ⟨y, there, at_y, place, kind⟩ := found
  refine ⟨y, there, at_y, ?_, place⟩
  cases y with
  | method | property => rfl
  | type t => cases h : t.kind <;> simp [Node.kind, TypeKind.nodeKind, h] at kind
  | _ => simp [Node.kind] at kind

/-- A body leads to what is declared directly inside it. -/
theorem marker_found (placed : Placed r known (.entry n inside after))
    (shape : Outline.Shaped known inside n) (body : n.type? = none) (link : id ∈ n.links)
    : ∃ y ∈ declarations r.toList, r.node? id = some y ∧ n.admits y ∧ y ∈ inside.nodes := by
  rw [shape.direct body, Outline.markers] at link
  obtain ⟨y, member, rfl⟩ := List.mem_map.mp link
  rw [List.mem_filter] at member
  have other : y.isSpace = false := by simpa using member.2
  have node := Outline.mem_nodes_of_mem_roots member.1
  have there := placed.inside.mem_of_mem node other
  refine ⟨y, there, laid.node?_eq there (.refl _), ?_, node⟩
  have owner := shape.owned y member.1
  cases n <;> cases y <;>
    simp_all [Node.admits, Node.owner?, Node.scope?, Node.type?, Node.isSpace, Snapshot.isDeclaration]

/-- Every link of a node leads to one that can stand there, known before or declared inside. -/
theorem link_found (placed : Placed r known (.entry n inside after))
    (origin : ∃ path p, source path p ∧ Stands path p n) (shape : Outline.Shaped known inside n)
    (inner : inside.Formed source (known ++ [n.id])) (link : id ∈ n.links)
    : ∃ y ∈ declarations r.toList, r.node? id = some y ∧ n.admits y
      ∧ (y.id ∈ known ∧ n.type?.isSome ∨ y ∈ inside.nodes) := by
  by_cases body : n.type? = none
  · obtain ⟨y, there, found, admitted, node⟩ := marker_found laid placed shape body link
    exact ⟨y, there, found, admitted, .inr node⟩
  · cases n with
    | type t =>
      obtain ⟨y, there, found, admitted, place⟩ := member_found laid origin link
        (fun k member => placed.ids k (by simp at member ⊢; grind))
        (shape.lists.taken id link)
      refine ⟨y, there, found, admitted, ?_⟩
      rw [List.mem_append, List.mem_append, List.mem_singleton] at place
      rcases place with (before | self) | within
      · exact .inl ⟨before, rfl⟩
      · have same := laid.eq_of_alike there (placed.mem rfl) (self ▸ .refl _)
        simp [same, Node.admits] at admitted
      · exact .inr (placed.inside.mem_nodes laid inner there within)
    | _ => exact absurd rfl body

/-- Nothing is lost: links of registered nodes lead to registered nodes of the right kind. -/
theorem Outline.Formed.sound (h : o.Formed source known) (placed : Placed r known o)
    : ∀ x ∈ o.nodes, Sound r x := by
  induction h with
  | done => simp
  | entry origin fresh shape inner rest inside_ih after_ih =>
    intro x member
    rw [nodes_entry, List.mem_cons, List.mem_append] at member
    rcases member with rfl | within | later
    · intro id link
      obtain ⟨y, _, found, admitted, _⟩ := link_found laid placed origin shape inner link
      exact ⟨y, found, admitted⟩
    · exact inside_ih placed.inside x within
    · exact after_ih placed.after x later

end

theorem Laid.sound (laid : Laid source r whole) : ∀ x ∈ r.toList, Sound r x := by
  intro x member
  cases kind : x.isSpace with
  | true =>
    cases x with
    | space => simp [Sound, Node.links]
    | _ => simp [Node.isSpace] at kind
  | false => exact laid.formed.sound laid laid.placed x (laid.mem_iff.mp ⟨member, kind⟩).1

end Links

/-- Whether a node leads to another one over nodes that were registered later and later. -/
def Descends (r : Registry) : Node → Node → Prop :=
  Relation.TransGen fun x y => Leads r x y ∧ [x, y].Sublist r.toList

theorem Descends.leads (h : Descends r x y) : ∃ z, Leads r x z := by
  induction h with
  | single step => exact ⟨_, step.1⟩
  | tail _ _ ih => exact ih

/-- Whether some type lists a method that the type itself is declared in. -/
def WayBack (r : Registry) : Prop :=
  ∃ t m, Leads r (.type t) (.method m) ∧ Descends r (.method m) (.type t)

def Outline.post : Outline → List Node
  | done => []
  | entry n inside after => inside.post ++ ((if n.isSpace then [] else [n]) ++ after.post)

theorem Outline.post_perm (o : Outline) : o.post.Perm (declarations o.nodes) := by
  induction o with
  | done => exact .nil
  | entry n inside after inside_ih after_ih =>
    have rest : (inside.post ++ after.post).Perm (declarations (inside.nodes ++ after.nodes)) := by
      rw [declarations_append]
      exact inside_ih.append after_ih
    cases kind : n.isSpace with
    | true => simpa [post, kind, declarations_cons_of_space kind] using rest
    | false =>
      rw [nodes_entry, declarations_cons kind, post]
      simp only [kind, Bool.false_eq_true, if_false, List.singleton_append]
      exact List.perm_middle.trans (rest.cons n)

def Settled (r : Registry) : List Node → List Node → Prop
  | _, [] => True
  | before, x :: rest => (∀ y, Leads r x y → y ∈ before) ∧ Settled r (before ++ [x]) rest

theorem settled_append {more : List Node}
    : Settled r before (l ++ more) ↔ Settled r before l ∧ Settled r (before ++ l) more := by
  induction l generalizing before with
  | nil => simp [Settled]
  | cons x l ih => simp [Settled, ih, and_assoc]

/-- What is settled leads nowhere else. -/
theorem Settled.closed (h : Settled r before l) : ∀ x ∈ l, ∀ y, Leads r x y → y ∈ before ++ l := by
  induction l generalizing before with
  | nil => simp
  | cons x l ih =>
    intro z member y leads
    rcases List.mem_cons.mp member with rfl | later
    · exact List.mem_append_left _ (h.1 y leads)
    · simpa using ih h.2 z later y leads

/-- In a settled list every way ends after as many steps as there are nodes. -/
theorem Settled.within {d : Nat} (h : Settled r before l) (start : ∀ x ∈ before, Within r d x)
    : ∀ x ∈ before ++ l, Within r (d + l.length) x := by
  induction l generalizing before d with
  | nil => simpa using start
  | cons x l ih =>
    have next : ∀ z ∈ before ++ [x], Within r (d + 1) z := by
      intro z member
      rcases List.mem_append.mp member with old | new
      · exact (start z old).mono (Nat.le_succ d)
      · obtain rfl := List.mem_singleton.mp new
        exact fun y leads => start y (h.1 y leads)
    intro z member
    have deeper := ih h.2 next z (by simpa using member)
    exact deeper.mono (by simp; omega)

/-- Of the nodes that are known, some are complete, and the others stand around the outline. -/
structure Around (r : Registry) (known : List NodeId) (o : Outline) (closed above : List Node)
    : Prop where
  cover : ∀ x ∈ declarations r.toList, x.id ∈ known → x ∈ closed ∨ x ∈ above
  chain : ∀ m ∈ above, ∀ y ∈ o.roots, y.isSpace = false → Descends r m y

section WaysBack

variable {whole : Outline}
variable {inner rest : Outline} {closed above : List Node}

/-- A declared node that is known after an entry was known before, is the entry's own node or was
declared inside it.
-/
theorem Placed.known_cases (placed : Placed r known (.entry n inner rest))
    (laid : Laid source r whole) (h : (Outline.entry n inner rest).Formed source known)
    (there : x ∈ declarations r.toList) (id : x.id ∈ known ++ n.id :: inner.ids)
    : x.id ∈ known ∨ n.isSpace = false ∧ x = n ∨ x ∈ inner.nodes := by
  have own : x.id = n.id → n.isSpace = false ∧ x = n := by
    intro same
    obtain ⟨_, _, _, stands⟩ := h.origin_of_mem (n := n) (by simp)
    obtain ⟨inside, declared⟩ := mem_declarations.mp there
    have other := isSpace_of_alike (laid.named x inside) stands.id_eq (same ▸ .refl _) declared
    exact ⟨other, laid.eq_of_alike there (placed.mem other) (same ▸ .refl _)⟩
  rw [List.mem_append, List.mem_cons] at id
  rcases id with before | self | within
  · exact .inl before
  · exact .inr (.inl (own self))
  · cases h with
    | entry _ _ _ formed _ => exact .inr (.inr (placed.inside.mem_nodes laid formed there within))

section

variable (h : Around r known (.entry n inner rest) closed above) (laid : Laid source r whole)
  (placed : Placed r known (.entry n inner rest))

include h laid placed

theorem Around.inside (shape : Outline.Shaped known inner n) (other : n.isSpace = false)
    : Around r (known ++ [n.id]) inner closed (above ++ [n]) where
  cover x there id := by
    rcases List.mem_append.mp id with before | self
    · exact (h.cover x there before).imp_right (List.mem_append_left _)
    · have same := laid.eq_of_alike there (placed.mem other) (List.mem_singleton.mp self ▸ .refl _)
      exact .inr (by simp [same])
  chain m around y root kind := by
    have node := placed.inside.mem_of_mem (Outline.mem_nodes_of_mem_roots root) kind
    have order : [n, y].Sublist r.toList := by
      refine List.Sublist.trans ?_ ((placed.sub.trans List.filter_sublist))
      rw [Outline.nodes_entry, declarations_cons other]
      refine List.Sublist.cons_cons n (List.singleton_sublist.mpr ?_)
      exact mem_declarations.mpr
        ⟨List.mem_append_left _ (Outline.mem_nodes_of_mem_roots root), kind⟩
    have step := And.intro (leads_root laid placed shape root kind) order
    rcases List.mem_append.mp around with outer | self
    · exact (h.chain m outer n (by simp) other).tail step
    · rw [List.mem_singleton.mp self]
      exact .single step

theorem Around.after (formed : (Outline.entry n inner rest).Formed source known)
    : Around r (known ++ n.id :: inner.ids) rest
        (closed ++ (inner.post ++ if n.isSpace then [] else [n])) above where
  cover x there id := by
    rcases placed.known_cases laid formed there id with before | ⟨other, rfl⟩ | within
    · exact (h.cover x there before).imp_left (List.mem_append_left _)
    · simp [other]
    · have complete := (inner.post_perm.mem_iff (a := x)).mpr
        (mem_declarations.mpr ⟨within, (mem_declarations.mp there).2⟩)
      simp [complete]
  chain m around y root := h.chain m around y (List.mem_cons_of_mem _ root)

end

/-- Without a way back, what a type lists is complete or declared inside it. -/
theorem Around.complete (h : Around r known (.entry n inner rest) closed above)
    (straight : ¬ WayBack r) (leads : Leads r n y) (admitted : n.admits y) (type : n.type?.isSome)
    (other : n.isSpace = false) (there : y ∈ declarations r.toList) (before : y.id ∈ known)
    : y ∈ closed := by
  rcases h.cover y there before with complete | around
  · exact complete
  · exfalso
    have down := h.chain y around n (by simp) other
    cases n with
    | type t =>
      cases y with
      | method m => exact straight ⟨t, m, leads, down⟩
      | property q =>
        obtain ⟨_, _, link, _⟩ := down.leads
        simp [Node.links] at link
      | _ => simp [Node.admits] at admitted
    | _ => simp [Node.type?] at type

/-- Without a way back, everything leads to what is completed before it. -/
theorem Outline.Formed.settled (laid : Laid source r whole) (straight : ¬ WayBack r)
    (h : o.Formed source known) (placed : Placed r known o) (around : Around r known o closed above)
    : Settled r closed o.post := by
  induction h generalizing closed above with
  | done => trivial
  | @entry known n inside after origin fresh shape inner rest inside_ih after_ih =>
    have formed := Outline.Formed.entry origin fresh shape inner rest
    rw [post, ← List.append_assoc, settled_append, settled_append]
    have next := after_ih placed.after (around.after laid placed formed)
    cases kind : n.isSpace with
    | true =>
      obtain rfl := shape.leaf kind
      refine ⟨⟨trivial, ?_⟩, ?_⟩
      · simp [Settled]
      · simpa [kind] using next
    | false =>
      refine ⟨⟨inside_ih placed.inside (around.inside laid placed shape kind), ?_⟩, ?_⟩
      · refine ⟨fun y leads => ?_, trivial⟩
        obtain ⟨id, link, found⟩ := leads
        obtain ⟨z, there, found', admitted, place⟩ := link_found laid placed origin shape inner link
        obtain rfl : y = z := Option.some.inj (found.symm.trans found')
        rcases place with ⟨before, type⟩ | within
        · exact List.mem_append_left _
            (around.complete straight ⟨id, link, found⟩ admitted type kind there before)
        · exact List.mem_append_right _ (inside.post_perm.mem_iff.mpr
            (mem_declarations.mpr ⟨within, (mem_declarations.mp there).2⟩))
      · simpa [kind] using next

theorem Around.start (r : Registry) (o : Outline) : Around r [] o [] [] := ⟨by simp, by simp⟩

theorem Laid.settled (laid : Laid source r whole) (straight : ¬ WayBack r)
    : Settled r [] whole.post :=
  laid.formed.settled laid straight laid.placed (.start r whole)

end WaysBack

end DesignMetrics
