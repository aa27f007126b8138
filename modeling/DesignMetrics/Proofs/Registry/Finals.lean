import DesignMetrics.Proofs.Registry.ListView

/-! Nodes that are registered more than once.
Of several nodes with one identifier the last one stays, at the place of the first. So registering
the last node of each identifier from the start comes to the same.
-/

namespace DesignMetrics

def latest? (nodes : List Node) (id : NodeId) : Option Node := nodes.reverse.find? fun n => n.id = id

def finals (nodes : List Node) : List Node := (nodes.map Node.id).filterMap (latest? nodes)

theorem latest?_cons (n : Node) (nodes : List Node) (id : NodeId)
    : latest? (n :: nodes) id = (latest? nodes id).or (if n.id = id then some n else none) := by
  unfold latest?
  rw [List.reverse_cons, List.find?_append]
  by_cases same : n.id = id <;> simp [same]

variable {nodes : List Node}

theorem mem_of_latest? {id : NodeId} {n : Node} (h : latest? nodes id = some n)
    : n ∈ nodes ∧ n.id = id := by
  have there := List.mem_of_find?_eq_some h
  have same := List.find?_some h
  exact ⟨by simpa using there, by simpa using same⟩

theorem latest?_isSome {n : Node} (h : n ∈ nodes) : ∃ m, latest? nodes n.id = some m := by
  rw [← Option.isSome_iff_exists, latest?, List.find?_isSome]
  exact ⟨n, by simpa using h, by simp⟩

theorem finals_subset (nodes : List Node) : finals nodes ⊆ nodes := by
  intro n member
  obtain ⟨id, _, found⟩ := List.mem_filterMap.mp member
  exact (mem_of_latest? found).1

/-- Every identifier keeps its place. -/
theorem map_id_finals (nodes : List Node) : (finals nodes).map Node.id = nodes.map Node.id := by
  have each (ids : List NodeId) (known : ∀ id ∈ ids, id ∈ nodes.map Node.id)
      : (ids.filterMap (latest? nodes)).map Node.id = ids := by
    induction ids with
    | nil => rfl
    | cons id ids ih =>
      obtain ⟨n, there, rfl⟩ := List.mem_map.mp (known id (by simp))
      obtain ⟨m, found⟩ := latest?_isSome there
      rw [List.filterMap_cons_some found, List.map_cons, (mem_of_latest? found).2,
        ih fun other member => known other (List.mem_cons_of_mem _ member)]
  exact each _ fun _ member => member

theorem latest?_finals (nodes : List Node) (id : NodeId)
    : latest? (finals nodes) id = latest? nodes id := by
  cases found : latest? (finals nodes) id with
  | some m =>
    obtain ⟨there, rfl⟩ := mem_of_latest? found
    obtain ⟨id, _, last⟩ := List.mem_filterMap.mp there
    rw [(mem_of_latest? last).2, last]
  | none =>
    cases last : latest? nodes id with
    | none => rfl
    | some m =>
      obtain ⟨there, rfl⟩ := mem_of_latest? last
      have kept : m ∈ finals nodes :=
        List.mem_filterMap.mpr ⟨m.id, List.mem_map_of_mem there, last⟩
      obtain ⟨_, some⟩ := latest?_isSome kept
      rw [some] at found
      contradiction

/-- What is found after an update: the new node in its place, and all others as before. -/
theorem find?_upsert (nodes : List Node) (new : Node) (id : NodeId)
    : (upsert nodes new).find? (fun n => n.id = id)
      = if new.id = id then some new else nodes.find? fun n => n.id = id := by
  have replaced (nodes : List Node)
      : (nodes.map fun n => if n.id = new.id then new else n).find? (fun n => n.id = id)
        = if new.id = id then (if id ∈ nodes.map Node.id then some new else none)
          else nodes.find? fun n => n.id = id := by
    induction nodes with
    | nil => simp
    | cons n nodes ih =>
      rw [List.map_cons, List.find?_cons, ih, List.find?_cons]
      by_cases own : n.id = new.id
      · by_cases same : new.id = id <;> simp [own, same]
      · by_cases same : new.id = id
        · have other : n.id ≠ id := fun equal => own (equal.trans same.symm)
          have apart : id ≠ n.id := other.symm
          simp [same, other, apart]
        · simp [own, same]
  unfold upsert
  split
  · rename_i known
    rw [replaced]
    by_cases same : new.id = id
    · simp [same, same ▸ known]
    · simp [same]
  · rename_i fresh
    rw [List.find?_append]
    by_cases same : new.id = id
    · have none : nodes.find? (fun n => n.id = id) = none := by
        rw [List.find?_eq_none]
        intro n member equal
        have equal : n.id = id := by simpa using equal
        exact fresh (List.mem_map.mpr ⟨n, member, equal.trans same.symm⟩)
      simp [none, same]
    · simp [same]

/-- What is found after updates: the last of the new nodes, or else what was there before. -/
theorem find?_upsertAll (nodes new : List Node) (id : NodeId)
    : (upsertAll nodes new).find? (fun n => n.id = id)
      = (latest? new id).or (nodes.find? fun n => n.id = id) := by
  induction new generalizing nodes with
  | nil => rfl
  | cons n new ih =>
    rw [upsertAll_cons, ih, find?_upsert, latest?_cons, Option.or_assoc]
    by_cases same : n.id = id <;> simp [same]

theorem map_id_upsertAll {new new' : List Node} (same : new.map Node.id = new'.map Node.id)
    : (upsertAll nodes new).map Node.id = (upsertAll nodes new').map Node.id := by
  have one {nodes nodes' : List Node} {n n' : Node} (ids : nodes.map Node.id = nodes'.map Node.id)
      (equal : n.id = n'.id) : (upsert nodes n).map Node.id = (upsert nodes' n').map Node.id := by
    unfold upsert
    rw [ids, equal]
    split
    · rw [← equal, map_id_replace, ids, equal, map_id_replace]
    · simp [ids, equal]
  have all {l l' : List Node} (ids : l.map Node.id = l'.map Node.id)
      : (upsertAll l new).map Node.id = (upsertAll l' new').map Node.id := by
    induction new generalizing new' l l' with
    | nil =>
      obtain rfl : new' = [] := by simpa using same.symm
      exact ids
    | cons n new ih =>
      cases new' with
      | nil => simp at same
      | cons n' new' =>
        obtain ⟨equal, rest⟩ : n.id = n'.id ∧ new.map Node.id = new'.map Node.id := by
          simpa using same
        exact ih rest (one ids equal)
  exact all rfl

/-- Nodes with distinct identifiers are given by these and by what is found under them. -/
theorem eq_of_find? {nodes' : List Node} (distinct : (nodes.map Node.id).Nodup)
    (ids : nodes.map Node.id = nodes'.map Node.id)
    (found : ∀ id, nodes.find? (fun n => n.id = id) = nodes'.find? fun n => n.id = id)
    : nodes = nodes' := by
  have own {nodes : List Node} (distinct : (nodes.map Node.id).Nodup) {i : Nat} (h : i < nodes.length)
      : nodes.find? (fun n => n.id = nodes[i].id) = some nodes[i] := by
    rw [List.find?_eq_some_iff_getElem]
    refine ⟨by simp, i, h, rfl, fun j less => ?_⟩
    have apart := List.pairwise_iff_getElem.mp distinct j i (by simp; omega) (by simpa) less
    simpa using apart
  have lengths : nodes.length = nodes'.length := by simpa using congrArg List.length ids
  refine List.ext_getElem lengths fun i left right => ?_
  have same : nodes[i].id = nodes'[i].id := by
    have both : (nodes.map Node.id)[i]? = (nodes'.map Node.id)[i]? := by rw [ids]
    simpa [left, right] using both
  have here := own distinct left
  rw [found, same, own (ids ▸ distinct) right] at here
  exact (Option.some.inj here).symm

/-- Registering the final nodes at once is registering all of them. -/
theorem Registry.toList_registerAll_finals (r : Registry) (new : List Node)
    : (r.registerAll (finals new)).toList = (r.registerAll new).toList := by
  refine eq_of_find? (ids_nodup _) ?_ fun id => ?_
  · rw [toList_registerAll, toList_registerAll]
    exact map_id_upsertAll (map_id_finals new)
  · rw [toList_registerAll, toList_registerAll, find?_upsertAll, find?_upsertAll, latest?_finals]

end DesignMetrics
