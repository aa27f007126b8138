import DesignMetrics.Proofs.Binding.Built
import DesignMetrics.Proofs.Registry.Reordering
import DesignMetrics.Proofs.Traversal.Unshadowed

/-! Files bound in another order.
Without shadowing a file becomes the same unit and the same nodes wherever it comes in the order. Only
namespaces are registered again and again, and the last time decides on their place.
-/

namespace DesignMetrics

/-- A namespace is known from its identifier, up to its place. -/
theorem Stands.unplaced_eq {path path' : String} {p p' : Part} {n n' : Node} (left : Stands path p n)
    (right : Stands path' p' n') (space : n.isSpace) (same : n'.id = n.id)
    : n'.unplaced = n.unplaced := by
  cases left with
  | @space name d named isOpen =>
    have own : n'.id = .ofKey name .space := by
      rw [same]
      simp [Node.id, NodeId.space, isOpen]
    obtain ⟨key, kind⟩ := right.id_eq
    rw [kind, NodeId.ofKey_inj] at own
    cases right with
    | @space name' d' named' isOpen' =>
      obtain rfl : name' = name := by
        simpa [Node.id, NodeId.space, isOpen, isOpen', NodeId.ofKey_inj] using same
      rfl
    | _ => simp [Node.kind, Binding.classNode, Binding.interfaceNode, TypeKind.nodeKind] at own
  | _ => simp [Node.isSpace] at space

/-- Whether no two namespaces of a registry have names that differ only in case. -/
def Registry.OneCase (r : Registry) : Prop :=
  ∀ m n, .space m ∈ r.toList → .space n ∈ r.toList → Text.lower m.name = Text.lower n.name
    → m.name = n.name

section

variable {files files' : List (SourceFile × String)}

/-- If no two namespaces differ only in case, no two nodes do. -/
theorem apart_bindAll (spaces : (bindAll ∅ files).2.OneCase) : (bindAll ∅ files).2.Apart := by
  have tidy : Tidy (bindAll ∅ files).2 := Tidy.empty.bindAll files
  intro a left b right alike
  cases kind : b.isSpace with
  | false =>
    have other := isSpace_of_alike (tidy.named b right) (tidy.named a left) alike kind
    exact congrArg Node.id (NodeId.eq_of_pairwise tidy.apart (mem_declarations.mpr ⟨left, other⟩)
      (mem_declarations.mpr ⟨right, kind⟩) alike)
  | true =>
    obtain ⟨_, _, _, stands_b⟩ := stands_of_mem_bindAll right
    obtain ⟨_, _, _, stands_a⟩ := stands_of_mem_bindAll left
    cases stands_b with
    | @space name d named isOpen =>
      have kinds : a.kind = .space := by
        obtain ⟨key, own⟩ := stands_a.id_eq
        rw [own] at alike
        exact alike.kind_eq
      cases stands_a with
      | @space name' d' named' isOpen' =>
        have lower : Text.lower name' = Text.lower name := by
          have keys : (NodeId.ofKey name' .space).Alike (.ofKey name .space) := by
            simpa [Node.id, NodeId.space, isOpen, isOpen'] using alike
          rcases (NodeId.alike_ofKey_iff.mp keys).2 with same | ⟨_, same⟩
          · rw [same]
          · exact same
        have same : name' = name := spaces _ _ left right lower
        simp [Node.id, same]
      | _ => simp [Node.kind, Binding.classNode, Binding.interfaceNode, TypeKind.nodeKind] at kinds
    | _ => simp [Node.isSpace] at kind

theorem nodes_outlineOf (files : List SourceFile)
    : (outlineOf files).nodes = files.flatMap fun file => (file.draft []).outline.nodes := by
  induction files with
  | nil => rfl
  | cons file files ih =>
    rw [List.flatMap_cons, ← ih]
    exact Outline.nodes_append _ _

section

variable (unbound : ∀ file ∈ files, file.1.Unbound) (same : files.Perm files')
variable (clean : ∀ u ∈ (bindAll ∅ files).1, u.shadowed = [])
variable (clean' : ∀ u ∈ (bindAll ∅ files').1, u.shadowed = [])

include unbound same clean clean'

/-- Every node is there in every order, up to the place of a namespace. -/
theorem exists_unplaced_bindAll {n : Node} (member : n ∈ (bindAll ∅ files).2.toList)
    : ∃ n' ∈ (bindAll ∅ files').2.toList, n'.unplaced = n.unplaced := by
  obtain ⟨_, bound, _⟩ := bindAll_empty_of_clean unbound clean
  obtain ⟨_, bound', _⟩ := bindAll_empty_of_clean (fun file there => unbound file (same.mem_iff.mpr there))
    clean'
  have there : n ∈ (outlineOf (files'.map Prod.fst)).nodes := by
    rw [bound.nodes] at member
    have drafted := (mem_of_mem_upsertAll member).resolve_left (by simp)
    rw [nodes_outlineOf] at drafted ⊢
    exact ((same.map Prod.fst).flatMap_right _).mem_iff.mp drafted
  cases kind : n.isSpace with
  | false =>
    exact ⟨n, (bound'.laid.mem_iff.mpr ⟨there, kind⟩).1, rfl⟩
  | true =>
    obtain ⟨n', member', same_id⟩ := List.mem_map.mp (bound'.laid.ids n.id (List.mem_map_of_mem there))
    obtain ⟨_, _, _, stands⟩ := stands_of_mem_bindAll member
    obtain ⟨_, _, _, stands'⟩ := stands_of_mem_bindAll member'
    exact ⟨n', member', stands.unplaced_eq stands' kind same_id⟩

/-- Files without shadowing give the same units and the same nodes in every order. -/
theorem reordered_bindAll (spaces : (bindAll ∅ files).2.OneCase)
    : (bindAll ∅ files).2.Reordered (bindAll ∅ files').2
      ∧ (bindAll ∅ files).1.Perm (bindAll ∅ files').1 := by
  have unbound' : ∀ file ∈ files', file.1.Unbound := fun file member =>
    unbound file (same.mem_iff.mpr member)
  have distinct (r : Registry) : (r.toList.map Node.unplaced).Nodup := by
    refine List.Nodup.of_map Node.id ?_
    simpa [Function.comp_def] using r.ids_nodup
  refine ⟨⟨(List.perm_ext_iff_of_nodup (distinct _) (distinct _)).mpr fun x => ?_,
    apart_bindAll spaces⟩, ?_⟩
  · simp only [List.mem_map]
    constructor
    · rintro ⟨n, member, rfl⟩
      exact exists_unplaced_bindAll unbound same clean clean' member
    · rintro ⟨n, member, rfl⟩
      exact exists_unplaced_bindAll unbound' same.symm clean' clean member
  · rw [(bindAll_empty_of_clean unbound clean).1, (bindAll_empty_of_clean unbound' clean').1]
    exact same.map _

end

end

end DesignMetrics
