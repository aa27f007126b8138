import DesignMetrics.Proofs.Registry.Alike

/-! The registry as the list of its nodes.
Registering a node replaces the node with the same identifier or adds a new last one, and a look-up
finds a node that is alike. Nothing else about a registry can be observed.
-/

namespace DesignMetrics

def upsert (nodes : List Node) (new : Node) : List Node :=
  if new.id ∈ nodes.map Node.id then nodes.map fun n => if n.id = new.id then new else n
  else nodes ++ [new]

def upsertAll (nodes : List Node) (new : List Node) : List Node := new.foldl upsert nodes

@[simp] theorem upsertAll_nil (nodes : List Node) : upsertAll nodes [] = nodes := rfl

@[simp] theorem upsertAll_cons (nodes : List Node) (n : Node) (new : List Node)
    : upsertAll nodes (n :: new) = upsertAll (upsert nodes n) new := rfl

theorem upsertAll_append (nodes new more : List Node)
    : upsertAll nodes (new ++ more) = upsertAll (upsertAll nodes new) more :=
  List.foldl_append

variable {nodes : List Node} {new : Node}

theorem upsert_of_fresh (fresh : new.id ∉ nodes.map Node.id)
    : upsert nodes new = nodes ++ [new] := if_neg fresh

/-- A node in the place of others keeps the identifiers. -/
theorem map_id_replace (nodes : List Node) (new : Node)
    : (nodes.map fun n => if n.id = new.id then new else n).map Node.id = nodes.map Node.id := by
  rw [List.map_map]
  apply List.map_congr_left
  intro n _
  simp only [Function.comp_apply]
  split
  · rename_i same
    exact same.symm
  · rfl

theorem map_id_upsert (known : new.id ∈ nodes.map Node.id)
    : (upsert nodes new).map Node.id = nodes.map Node.id := by
  rw [upsert, if_pos known, map_id_replace]

variable {id : NodeId}

/-- The identifiers after an update: those from before, and the new one. -/
theorem mem_ids_upsert
    : id ∈ (upsert nodes new).map Node.id ↔ id ∈ nodes.map Node.id ∨ id = new.id := by
  unfold upsert
  split
  · rename_i known
    rw [map_id_replace]
    exact ⟨Or.inl, fun h => h.elim (fun old => old) (fun eq => eq ▸ known)⟩
  · simp

theorem mem_ids_upsertAll {new : List Node}
    : id ∈ (upsertAll nodes new).map Node.id ↔ id ∈ nodes.map Node.id ∨ id ∈ new.map Node.id := by
  induction new generalizing nodes with
  | nil => simp
  | cons n new ih =>
    rw [upsertAll_cons, ih, mem_ids_upsert, List.map_cons, List.mem_cons]
    exact or_assoc

variable {n : Node}

/-- Every node after an update was there before or is the new one. -/
theorem mem_of_mem_upsert (h : n ∈ upsert nodes new) : n ∈ nodes ∨ n = new := by
  unfold upsert at h
  split at h
  · obtain ⟨m, member, rfl⟩ := List.mem_map.mp h
    split
    · exact Or.inr rfl
    · exact Or.inl member
  · simpa using h

theorem mem_of_mem_upsertAll {new : List Node} (h : n ∈ upsertAll nodes new)
    : n ∈ nodes ∨ n ∈ new := by
  induction new generalizing nodes with
  | nil => exact Or.inl h
  | cons m new ih =>
    rcases ih h with old | later
    · rcases mem_of_mem_upsert old with old | rfl
      · exact Or.inl old
      · exact Or.inr (by simp)
    · exact Or.inr (by simp [later])

/-- Nodes stay where they are as long as nothing else is registered in their place. -/
theorem mem_upsert_of_mem (h : n ∈ nodes) (apart : new.id ≠ n.id) : n ∈ upsert nodes new := by
  unfold upsert
  split
  · exact List.mem_map.mpr ⟨n, h, if_neg apart.symm⟩
  · exact List.mem_append_left _ h

theorem mem_upsertAll_of_mem {new : List Node} (h : n ∈ nodes) (apart : n.id ∉ new.map Node.id)
    : n ∈ upsertAll nodes new := by
  induction new generalizing nodes with
  | nil => exact h
  | cons m new ih =>
    rw [List.map_cons, List.mem_cons, not_or] at apart
    exact ih (mem_upsert_of_mem h (Ne.symm apart.1)) apart.2

variable {b : Node} {f : Node → Node}

/-- A node that replaces another may do so before or after a third one is registered. -/
theorem upsert_comm {a : Node} (known : b.id ∈ nodes.map Node.id) (apart : a.id ≠ b.id)
    : upsert (upsert nodes a) b = upsert (upsert nodes b) a := by
  have first : b.id ∈ (upsert nodes a).map Node.id := mem_ids_upsert.mpr (.inl known)
  by_cases there : a.id ∈ nodes.map Node.id
  · have second : a.id ∈ (upsert nodes b).map Node.id := mem_ids_upsert.mpr (.inl there)
    rw [upsert, if_pos first, upsert, if_pos there, upsert, if_pos second, upsert, if_pos known,
      List.map_map, List.map_map]
    apply List.map_congr_left
    intro n _
    simp only [Function.comp_apply]
    split <;> split <;> simp_all [Ne.symm apart]
  · have second : a.id ∉ (upsert nodes b).map Node.id :=
      fun member => (mem_ids_upsert.mp member).elim there apart
    rw [upsert, if_pos first, upsert_of_fresh there, upsert_of_fresh second, upsert, if_pos known]
    simp [apart]

theorem upsert_upsertAll {new : List Node} (known : b.id ∈ nodes.map Node.id)
    (apart : b.id ∉ new.map Node.id)
    : upsert (upsertAll nodes new) b = upsertAll (upsert nodes b) new := by
  induction new generalizing nodes with
  | nil => rfl
  | cons a new ih =>
    rw [List.map_cons, List.mem_cons, not_or] at apart
    rw [upsertAll_cons, ih (mem_ids_upsert.mpr (.inl known)) apart.2, upsert_comm known (Ne.symm apart.1),
      upsertAll_cons]

/-- A new last node that is replaced at once might as well have been the other one. -/
theorem upsert_append_singleton {a : Node} (fresh : a.id ∉ nodes.map Node.id) (same : b.id = a.id)
    : upsert (nodes ++ [a]) b = nodes ++ [b] := by
  rw [upsert, if_pos (by simp [same]), List.map_append]
  congr 1
  · refine (List.map_congr_left fun n member => ?_).trans (List.map_id nodes)
    have apart : n.id ≠ b.id := fun equal => fresh (same ▸ equal ▸ List.mem_map_of_mem member)
    exact if_neg apart
  · simp [same]

/-- What keeps identifiers may be applied before or after a node is looked up. -/
theorem find?_map_of_keeps (keeps : ∀ n, (f n).id = n.id) (nodes : List Node) (p : NodeId → Bool)
    : (nodes.map f).find? (fun n => p n.id) = (nodes.find? fun n => p n.id).map f := by
  rw [List.find?_map]
  simp only [Function.comp_def, keeps]

/-- What keeps identifiers may be applied before or after nodes are put into a list. -/
theorem map_upsertAll (keeps : ∀ n, (f n).id = n.id) (nodes new : List Node)
    : (upsertAll nodes new).map f = upsertAll (nodes.map f) (new.map f) := by
  have one (nodes : List Node) (n : Node) : (upsert nodes n).map f = upsert (nodes.map f) (f n) := by
    have ids : (nodes.map f).map Node.id = nodes.map Node.id := by simp [Function.comp_def, keeps]
    unfold upsert
    rw [ids, keeps]
    split
    · rw [List.map_map, List.map_map]
      apply List.map_congr_left
      intro m _
      simp only [Function.comp_apply, keeps]
      split <;> rfl
    · simp
  induction new generalizing nodes with
  | nil => rfl
  | cons n new ih => rw [upsertAll_cons, ih, one, List.map_cons, upsertAll_cons]

namespace Registry

variable {r : Registry}

/-- The place of an identifier in the list. -/
theorem getElem?_toList_of_slot {i : Nat} (h : r.slots[id]? = some i)
    : ∃ n, r.toList[i]? = some n ∧ n.id = id := by
  have found := (r.slots_iff id i).mp h
  obtain ⟨n, there, same⟩ := Option.map_eq_some_iff.mp found
  exact ⟨n, by simpa [toList] using there, same⟩

theorem slot_of_getElem?_toList {i : Nat} (h : r.toList[i]? = some n) : r.slots[n.id]? = some i := by
  rw [r.slots_iff]
  have there : r.nodes[i]? = some n := by simpa [toList] using h
  simp [there]

/-- No two nodes have one identifier. -/
theorem ids_nodup (r : Registry) : (r.toList.map Node.id).Nodup := by
  rw [List.Nodup, List.pairwise_iff_getElem]
  intro i j left right less same
  simp only [List.getElem_map, List.length_map] at left right same
  have first := slot_of_getElem?_toList (List.getElem?_eq_getElem left)
  have second := slot_of_getElem?_toList (List.getElem?_eq_getElem right)
  rw [same, second] at first
  have equal : j = i := by simpa using first
  omega

theorem slots_eq_none_iff : r.slots[id]? = none ↔ id ∉ r.toList.map Node.id := by
  constructor
  · intro missing member
    obtain ⟨n, there, rfl⟩ := List.mem_map.mp member
    obtain ⟨i, at_i⟩ := List.getElem?_of_mem there
    rw [slot_of_getElem?_toList at_i] at missing
    contradiction
  · intro fresh
    cases found : r.slots[id]? with
    | none => rfl
    | some i =>
      obtain ⟨n, there, rfl⟩ := getElem?_toList_of_slot found
      exact absurd (List.mem_map_of_mem (List.mem_of_getElem? there)) fresh

theorem contains_iff : r.contains id ↔ id ∈ r.toList.map Node.id := by
  rw [contains, Std.TreeMap.contains_eq_isSome_getElem?, Option.isSome_iff_ne_none, ne_eq,
    slots_eq_none_iff, Decidable.not_not]

@[simp] theorem toList_empty : (∅ : Registry).toList = [] := rfl

/-- Registering is an update of the list. -/
theorem toList_register (r : Registry) (node : Node)
    : (r.register node).toList = upsert r.toList node := by
  unfold register upsert
  split
  · rename_i i found
    obtain ⟨old, there, same⟩ := getElem?_toList_of_slot found
    rw [if_pos (same ▸ List.mem_map_of_mem (List.mem_of_getElem? there))]
    apply List.ext_getElem?
    intro j
    have bound : i < r.nodes.size := by
      have := (List.getElem?_eq_some_iff.mp there).1
      simpa [toList] using this
    simp only [replace, toList, Array.getElem?_toList, Array.getElem?_setIfInBounds, List.getElem?_map]
    by_cases here : i = j
    · subst here
      have old_at : r.nodes[i]? = some old := by simpa [toList] using there
      rw [old_at]
      simp [bound, same]
    · cases other : r.nodes[j]? with
      | none => simp [here]
      | some n =>
        have apart : n.id ≠ node.id := by
          intro equal
          have slot := slot_of_getElem?_toList (r := r) (n := n) (i := j)
            (by simpa [toList] using other)
          rw [equal, found] at slot
          exact here (by simpa using slot)
        simp [here, apart]
  · rename_i missing
    rw [if_neg (slots_eq_none_iff.mp missing)]
    simp [add, toList]

theorem toList_registerAll (r : Registry) (nodes : List Node)
    : (r.registerAll nodes).toList = upsertAll r.toList nodes := by
  induction nodes generalizing r with
  | nil => rfl
  | cons n nodes ih =>
    have step : r.registerAll (n :: nodes) = (r.register n).registerAll nodes := rfl
    rw [step, ih, toList_register, upsertAll_cons]

/-- A registered node is found under its own identifier. -/
theorem node?_of_mem (h : n ∈ r.toList) : r.node? n.id = some n := by
  obtain ⟨i, there⟩ := List.getElem?_of_mem h
  have at_i : r.nodes[i]? = some n := by simpa [toList] using there
  simp [node?, slot?, slot_of_getElem?_toList there, at_i]

/-- What is found is registered under an identifier that is alike. -/
theorem alike_of_node? (h : r.node? id = some n) : n ∈ r.toList ∧ n.id.Alike id := by
  obtain ⟨i, slot, there⟩ := Option.bind_eq_some_iff.mp h
  refine ⟨List.mem_of_getElem? (show r.toList[i]? = some n by simpa [toList] using there), ?_⟩
  unfold slot? at slot
  cases exact : r.slots[id]? with
  | some j =>
    have same : j = i := by simpa [exact] using slot
    subst same
    have own := (r.slots_iff id j).mp exact
    rw [there] at own
    exact Or.inl (by simpa using own)
  | none =>
    obtain ⟨key, folds, first⟩ := Option.bind_eq_some_iff.mp (by simpa [exact] using slot)
    have spelled := ((r.spellings_iff key i).mp first).1
    have fold : n.id.folded? = some key := by simpa [foldedAt, there] using spelled
    exact Or.inr ⟨fold.trans folds.symm, by simp [fold]⟩

/-- An identifier stands for a node as soon as one that is alike is registered. -/
theorem node?_isSome_iff : (r.node? id).isSome ↔ ∃ n ∈ r.toList, n.id.Alike id := by
  constructor
  · intro found
    obtain ⟨n, there⟩ := Option.isSome_iff_exists.mp found
    exact ⟨n, alike_of_node? there⟩
  · rintro ⟨n, member, alike⟩
    by_cases exact : id ∈ r.toList.map Node.id
    · obtain ⟨m, there, rfl⟩ := List.mem_map.mp exact
      simp [node?_of_mem there]
    · have missing := slots_eq_none_iff.mpr exact
      rcases alike with rfl | ⟨folds, known⟩
      · exact absurd (List.mem_map_of_mem member) exact
      · obtain ⟨key, fold⟩ := Option.ne_none_iff_exists'.mp known
        obtain ⟨i, there⟩ := List.getElem?_of_mem member
        have at_i : r.nodes[i]? = some n := by simpa [toList] using there
        obtain ⟨j, first⟩ := exists_firstSpelling
          (show foldedAt r.nodes i = some key by simp [foldedAt, at_i, fold])
        have bound := first.lt_size
        have slot : r.slot? id = some j := by
          simp [slot?, missing, ← folds, fold, (r.spellings_iff key j).mpr first]
        simp [node?, slot, bound]

/-- If only one node is alike, it is the one that is found. -/
theorem node?_eq_some_of_only (member : n ∈ r.toList) (alike : n.id.Alike id)
    (only : ∀ m ∈ r.toList, m.id.Alike id → m = n) : r.node? id = some n := by
  obtain ⟨m, found⟩ := Option.isSome_iff_exists.mp (node?_isSome_iff.mpr ⟨n, member, alike⟩)
  have there := alike_of_node? found
  rw [found, only m there.1 there.2]

/-- If all nodes are declared in the project, an identifier is declared if one alike is there. -/
theorem isDeclared_iff (own : ∀ n ∈ r.toList, n.isUserDefined)
    : r.isDeclared id ↔ ∃ n ∈ r.toList, n.id.Alike id := by
  rw [← node?_isSome_iff, isDeclared]
  cases found : r.node? id with
  | none => simp
  | some n => simp [own n (alike_of_node? found).1]

section

variable {r' : Registry}

/-- The places of identifiers are those in the list. -/
theorem slots_eq_of_ids (same : r.toList.map Node.id = r'.toList.map Node.id) (id : NodeId)
    : r.slots[id]? = r'.slots[id]? := by
  have places (r : Registry) (i : Nat)
      : r.slots[id]? = some i ↔ (r.toList.map Node.id)[i]? = some id := by
    rw [r.slots_iff, List.getElem?_map]
    simp [toList]
  apply Option.ext
  intro i
  rw [places, places, same]

/-- The first spellings are those in the list. -/
theorem spellings_eq_of_ids (same : r.toList.map Node.id = r'.toList.map Node.id) (key : String)
    : r.spellings[key]? = r'.spellings[key]? := by
  have folded (i : Nat) : foldedAt r.nodes i = foldedAt r'.nodes i := by
    have at_i (r : Registry) : foldedAt r.nodes i
        = ((r.toList.map Node.id)[i]?).bind NodeId.folded? := by
      cases found : r.nodes[i]? <;> simp [foldedAt, toList, found]
    rw [at_i, at_i, same]
  apply Option.ext
  intro i
  rw [r.spellings_iff, r'.spellings_iff, FirstSpelling, FirstSpelling]
  simp only [folded]

/-- If nodes are changed but keep their identifiers, those that are found are changed alike. -/
theorem node?_eq_map (keeps : ∀ n, (f n).id = n.id) (changed : r.toList = r'.toList.map f)
    (id : NodeId) : r.node? id = (r'.node? id).map f := by
  have same : r.toList.map Node.id = r'.toList.map Node.id := by
    rw [changed, List.map_map]
    simp [Function.comp_def, keeps]
  have slot : r.slot? id = r'.slot? id := by
    simp only [slot?, slots_eq_of_ids same, spellings_eq_of_ids same]
  have nodes (i : Nat) : r.nodes[i]? = (r'.nodes[i]?).map f := by
    have at_i := congrArg (·[i]?) changed
    simpa [toList] using at_i
  rw [node?, node?, slot]
  cases r'.slot? id with
  | none => rfl
  | some i => exact nodes i

end

end Registry

end DesignMetrics
