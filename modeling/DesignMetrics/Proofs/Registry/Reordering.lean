import Mathlib.Data.List.Nodup
import DesignMetrics.Proofs.Binding.Files
import DesignMetrics.Proofs.Registry.SameTypes

/-! Registries with the same nodes in another order.
If no two nodes differ only in case, an identifier stands for one node at most, and the order in which
nodes were registered cannot be seen.
-/

namespace DesignMetrics

namespace Node

def unplaced : Node → Node
  | space n => .space n.unplaced
  | n => n

@[simp] theorem id_unplaced (n : Node) : n.unplaced.id = n.id := by
  cases n <;> rfl

theorem seeing_unplaced : Seeing unplaced (fun t => t) NamespaceNode.unplaced := by
  constructor <;> intro n <;> cases n <;> rfl

end Node

namespace Registry

def Apart (r : Registry) : Prop := ∀ a ∈ r.toList, ∀ b ∈ r.toList, a.id.Alike b.id → a.id = b.id

/-- Then an identifier stands for the one node that is alike. -/
theorem Apart.node?_iff {r : Registry} (h : r.Apart) {id : NodeId} {n : Node}
    : r.node? id = some n ↔ n ∈ r.toList ∧ n.id.Alike id := by
  refine ⟨alike_of_node?, fun ⟨member, alike⟩ => node?_eq_some_of_only member alike ?_⟩
  intro m there other
  exact List.inj_on_of_nodup_map r.ids_nodup there member (h m there n member (other.trans alike.symm))

/-- Whether two registries have the same nodes, in any order. -/
structure Reordered (r r' : Registry) : Prop where
  nodes : (r.toList.map Node.unplaced).Perm (r'.toList.map Node.unplaced)
  apart : r.Apart

namespace Reordered

variable {r r' : Registry} (h : Reordered r r')

include h

theorem exists_node {n : Node} (member : n ∈ r.toList)
    : ∃ n' ∈ r'.toList, n'.unplaced = n.unplaced := by
  have there := h.nodes.mem_iff.mp (List.mem_map_of_mem member)
  simpa using there

theorem size : r.size = r'.size := by
  simpa [toList, Registry.size] using h.nodes.length_eq

theorem symm : Reordered r' r where
  nodes := h.nodes.symm
  apart a left b right alike := by
    obtain ⟨a', left', same_a⟩ := List.mem_map.mp (h.nodes.mem_iff.mpr (List.mem_map_of_mem left))
    obtain ⟨b', right', same_b⟩ := List.mem_map.mp (h.nodes.mem_iff.mpr (List.mem_map_of_mem right))
    have ids {x y : Node} (same : x.unplaced = y.unplaced) : x.id = y.id := by
      simpa using congrArg Node.id same
    rw [← ids same_a, ← ids same_b] at alike ⊢
    exact h.apart a' left' b' right' alike

/-- An identifier stands for the same node in both. -/
theorem node? (id : NodeId) : (r.node? id).map Node.unplaced = (r'.node? id).map Node.unplaced := by
  have found {r r' : Registry} (h : Reordered r r') (x : Node)
      (there : (r.node? id).map Node.unplaced = some x)
      : (r'.node? id).map Node.unplaced = some x := by
    obtain ⟨n, at_n, rfl⟩ := Option.map_eq_some_iff.mp there
    obtain ⟨member, alike⟩ := alike_of_node? at_n
    obtain ⟨n', member', same⟩ := h.exists_node member
    have ids : n'.id = n.id := by simpa using congrArg Node.id same
    rw [h.symm.apart.node?_iff.mpr ⟨member', ids ▸ alike⟩, Option.map_some, same]
  exact Option.ext fun x => ⟨found h x, found h.symm x⟩

theorem namespaceNamed (name : String)
    : (r.namespaceNamed name).unplaced = (r'.namespaceNamed name).unplaced :=
  Node.seeing_unplaced.namespaceNamed h.node? name

/-- The same types and namespaces are found in both. -/
theorem sameTypes : SameTypes r r' :=
  .of_seen Node.seeing_unplaced (fun _ => rfl) (fun _ => rfl) h.node? h.nodes

end Reordered

end Registry

end DesignMetrics
