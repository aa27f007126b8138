import DesignMetrics.Proofs.Registry.ListView
import DesignMetrics.Proofs.Registry.SameTypes

/-! Registries that differ only in where their nodes come from.
Whether a node comes from the cache is a mark on it that no look-up depends on, so registries with the
same nodes up to this mark answer every question alike.
-/

namespace DesignMetrics

namespace Registry

/-- An identifier stands for the node with exactly this identifier, or else for the first that is
alike. -/
theorem node?_eq (r : Registry) (id : NodeId)
    : r.node? id
      = (r.toList.find? fun n => n.id = id).or (r.toList.find? fun n => n.id.Alike id) := by
  by_cases known : id ∈ r.toList.map Node.id
  · obtain ⟨n, member, rfl⟩ := List.mem_map.mp known
    have found : (r.toList.find? fun m => m.id = n.id) = some n := by
      rw [List.find?_eq_some_iff_getElem]
      obtain ⟨i, bound, there⟩ := List.getElem_of_mem member
      refine ⟨by simp, i, bound, there, fun j less => ?_⟩
      have distinct := List.pairwise_iff_getElem.mp r.ids_nodup j i (by simp; omega) (by simpa) less
      simpa [there] using distinct
    rw [node?_of_mem member, found]
    rfl
  · have none : (r.toList.find? fun n => n.id = id) = none := by
      rw [List.find?_eq_none]
      intro n member same
      exact known (List.mem_map.mpr ⟨n, member, by simpa using same⟩)
    rw [none, Option.none_or]
    cases found : r.toList.find? fun n => n.id.Alike id with
    | none =>
      rw [← Option.not_isSome_iff_eq_none, node?_isSome_iff]
      rintro ⟨n, member, alike⟩
      rw [List.find?_eq_none] at found
      exact found n member (by simpa using alike)
    | some n =>
      obtain ⟨alike, i, bound, there, before⟩ := List.find?_eq_some_iff_getElem.mp found
      simp only [decide_eq_true_eq] at alike
      have missing := slots_eq_none_iff.mpr known
      have at_i : r.nodes[i]? = some n := by
        rw [← there]
        simp [toList] at bound ⊢
      rcases alike with same | ⟨folds, folded⟩
      · exact absurd (List.mem_map.mpr ⟨n, there ▸ List.getElem_mem bound, same⟩) known
      · obtain ⟨key, fold⟩ := Option.ne_none_iff_exists'.mp folded
        have first : FirstSpelling r.nodes key i := by
          refine ⟨by simp [foldedAt, at_i, fold], fun j less same => ?_⟩
          have small : j < r.toList.length := by omega
          have other := before j less
          have at_j : r.nodes[j]? = some r.toList[j] := by
            simp [toList] at small ⊢
          simp only [foldedAt, at_j, Option.bind_some] at same
          have alike : r.toList[j].id.Alike id := .inr ⟨same.trans (fold.symm.trans folds), by simp [same]⟩
          simp [alike] at other
        have slot : r.slot? id = some i := by
          simp [slot?, missing, ← folds, fold, (r.spellings_iff key i).mpr first]
        simp [node?, slot, at_i]

/-- Registries whose nodes are the same, seen through something that keeps identifiers, have the same
node for each identifier. -/
theorem node?_congr {f : Node → Node} (keeps : ∀ n, (f n).id = n.id) {r r' : Registry}
    (same : r.toList.map f = r'.toList.map f) (id : NodeId)
    : (r.node? id).map f = (r'.node? id).map f := by
  have both (r : Registry) : (r.node? id).map f
      = ((r.toList.map f).find? fun n => n.id = id).or
          ((r.toList.map f).find? fun n => n.id.Alike id) := by
    rw [node?_eq, find?_map_of_keeps keeps r.toList fun i => i = id,
      find?_map_of_keeps keeps r.toList fun i => i.Alike id]
    cases r.toList.find? fun n => n.id = id <;> rfl
  rw [both r, both r', same]

end Registry

abbrev Node.bare (n : Node) : Node := n.withCached false

@[simp] theorem Node.bare_withCached (n : Node) (cached : Bool)
    : (n.withCached cached).bare = n.bare := by
  cases n <;> rfl

@[simp] theorem Node.isUserDefined_withCached (n : Node) (cached : Bool)
    : (n.withCached cached).isUserDefined = n.isUserDefined := by
  cases n <;> rfl

theorem Node.seeing_bare : Seeing bare TypeNode.bare NamespaceNode.bare := by
  constructor <;> intro n <;> cases n <;> rfl

namespace Registry

def Agree (r r' : Registry) : Prop := r.toList.map Node.bare = r'.toList.map Node.bare

variable {r r' : Registry}

theorem Agree.refl (r : Registry) : Agree r r := rfl

variable (h : Agree r r')

include h

theorem Agree.ids : r.toList.map Node.id = r'.toList.map Node.id := by
  rw [Node.seeing_bare.ids, h, ← Node.seeing_bare.ids]

/-- Registries that agree have the same declared identifiers. -/
theorem Agree.declaredIds
    : (r.toList.filter Node.isUserDefined).map Node.id
      = (r'.toList.filter Node.isUserDefined).map Node.id := by
  rw [Node.seeing_bare.declaredIds, h, ← Node.seeing_bare.declaredIds]

theorem Agree.size : r.size = r'.size := by
  have lengths := congrArg List.length h
  simpa [toList, Registry.size] using lengths

/-- An identifier stands for the same node in both. -/
theorem Agree.node? (id : NodeId) : (r.node? id).map Node.bare = (r'.node? id).map Node.bare :=
  node?_congr (fun n => n.id_withCached false) h id

theorem Agree.isDeclared (id : NodeId) : r.isDeclared id = r'.isDeclared id :=
  Node.seeing_bare.isDeclared h.node? id

theorem Agree.namespaceNamed (name : String)
    : (r.namespaceNamed name).bare = (r'.namespaceNamed name).bare :=
  Node.seeing_bare.namespaceNamed h.node? name

/-- The same types and namespaces are found in both. -/
theorem Agree.sameTypes : SameTypes r r' :=
  .of_seen Node.seeing_bare (fun _ => rfl) (fun _ => rfl) h.node? (.of_eq h)

end Registry

/-- Marks can be taken off before or after nodes are put into a list. -/
theorem map_bare_upsertAll (nodes new : List Node)
    : (upsertAll nodes new).map Node.bare = upsertAll (nodes.map Node.bare) (new.map Node.bare) :=
  map_upsertAll (fun n => n.id_withCached false) nodes new

end DesignMetrics
