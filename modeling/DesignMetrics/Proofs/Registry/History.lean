import Mathlib.Data.List.Induction
import DesignMetrics.Proofs.Registry.Agreement
import DesignMetrics.Proofs.Registry.Finals

/-! The registry as a history of registrations.
Whatever nodes have been registered, and in whatever order, a registry lists the last node of each
identifier at the place of the first one, and finds nodes by a rule that only speaks of what has been
registered.
-/

namespace DesignMetrics

-- What a history says

def NodeId.endsAsProperty (id : NodeId) : Bool := "#p".toList.isSuffixOf id.text.toList

def NodeId.sameIgnoringCase (a b : NodeId) : Bool :=
  !a.endsAsProperty && !b.endsAsProperty && Text.sameFolded a.text b.text

def firstSpelling? (history : List Node) (id : NodeId) : Option NodeId :=
  (history.map Node.id).find? fun other => other.sameIgnoringCase id

def lookUp? (history : List Node) (id : NodeId) : Option Node :=
  (latest? history id).or ((firstSpelling? history id).bind (latest? history))

theorem latest?_eq_none_iff {history : List Node} {id : NodeId}
    : latest? history id = none ↔ id ∉ history.map Node.id := by
  simp [latest?]

/-- Identifiers that are not equal are alike if they are equal but for case. -/
theorem NodeId.alike_iff_sameIgnoringCase {a b : NodeId} (other : a ≠ b)
    : a.Alike b ↔ a.sameIgnoringCase b := by
  have folds (id : NodeId)
      : id.folded? = if id.endsAsProperty then none else some (Text.lower id.text) := rfl
  rw [Alike, folds, folds, sameIgnoringCase, Text.sameFolded]
  cases a.endsAsProperty <;> cases b.endsAsProperty <;> simp [other]

-- First occurrences

section

variable {α : Type} [BEq α] [LawfulBEq α] {l : List α} {a : α}

theorem eraseDups_concat_of_mem (h : a ∈ l) : (l ++ [a]).eraseDups = l.eraseDups := by
  rw [List.eraseDups_append, List.cons_removeAll, if_neg (by simpa using h)]
  simp

theorem eraseDups_concat_of_notMem (h : a ∉ l) : (l ++ [a]).eraseDups = l.eraseDups ++ [a] := by
  rw [List.eraseDups_append, List.cons_removeAll, if_pos (by simpa using h)]
  simp [List.eraseDups_cons]

/-- The first element with a property is a first occurrence. -/
theorem find?_eraseDups (p : α → Bool) (l : List α) : l.eraseDups.find? p = l.find? p := by
  induction l using List.reverseRecOn with
  | nil => simp
  | append_singleton l a ih =>
    by_cases known : a ∈ l
    · rw [eraseDups_concat_of_mem known, ih, List.find?_append]
      cases found : l.find? p with
      | some b => rfl
      | none =>
        have refused : p a = false := by simpa using List.find?_eq_none.mp found a known
        simp [refused]
    · rw [eraseDups_concat_of_notMem known, List.find?_append, ih, List.find?_append]

end

-- Listing

/-- Updates keep the identifiers in the order in which they came first, by induction on the last one. -/
theorem map_id_upsertAll_nil (history : List Node)
    : (upsertAll [] history).map Node.id = (history.map Node.id).eraseDups := by
  induction history using List.reverseRecOn with
  | nil => rfl
  | append_singleton history n ih =>
    rw [upsertAll_append, upsertAll_cons, upsertAll_nil, List.map_append, List.map_singleton]
    by_cases known : n.id ∈ history.map Node.id
    · rw [eraseDups_concat_of_mem known, map_id_upsert, ih]
      rwa [ih, List.mem_eraseDups]
    · rw [eraseDups_concat_of_notMem known, upsert_of_fresh, List.map_append, ih, List.map_singleton]
      rwa [ih, List.mem_eraseDups]

namespace Registry

section

variable (history : List Node)

theorem map_id_registered
    : ((∅ : Registry).registerAll history).toList.map Node.id = (history.map Node.id).eraseDups := by
  rw [toList_registerAll, toList_empty, map_id_upsertAll_nil]

theorem find?_registered (id : NodeId)
    : (((∅ : Registry).registerAll history).toList.find? fun n => n.id = id) = latest? history id := by
  rw [toList_registerAll, toList_empty, find?_upsertAll, List.find?_nil, Option.or_none]

/-- Every listed node is the last one of its identifier. -/
theorem latest?_of_registered {n : Node} (member : n ∈ ((∅ : Registry).registerAll history).toList)
    : latest? history n.id = some n := by
  have found := node?_eq ((∅ : Registry).registerAll history) n.id
  rw [node?_of_mem member, find?_registered] at found
  cases last : latest? history n.id with
  | some m => simpa [last] using found.symm
  | none =>
    rw [latest?_eq_none_iff, ← List.mem_eraseDups, ← map_id_registered] at last
    exact absurd (List.mem_map_of_mem member) last

/-- The list holds the last node of each identifier. -/
theorem toList_registered
    : ((∅ : Registry).registerAll history).toList
      = (history.map Node.id).eraseDups.filterMap (latest? history) := by
  rw [← map_id_registered, List.filterMap_map]
  refine Eq.trans ?_ (List.filterMap_congr fun n member => (latest?_of_registered history member).symm)
  exact List.filterMap_some.symm

-- Looking up

/-- The first listed node whose identifier has a property is the last one of the first such identifier. -/
theorem find?_id_registered (p : NodeId → Bool)
    : (((∅ : Registry).registerAll history).toList.find? fun n => p n.id)
      = ((history.map Node.id).find? p).bind (latest? history) := by
  rw [← find?_eraseDups p, ← map_id_registered, List.find?_map]
  have same : (p ∘ Node.id) = fun n => p n.id := rfl
  rw [same]
  cases found : ((∅ : Registry).registerAll history).toList.find? fun n => p n.id with
  | none => rfl
  | some n => exact (latest?_of_registered history (List.mem_of_find?_eq_some found)).symm

theorem node?_registered (id : NodeId)
    : ((∅ : Registry).registerAll history).node? id = lookUp? history id := by
  rw [node?_eq, find?_registered, lookUp?]
  cases last : latest? history id with
  | some n => rfl
  | none =>
    have fresh := latest?_eq_none_iff.mp last
    rw [Option.none_or, Option.none_or, firstSpelling?,
      find?_id_registered history fun other => decide (other.Alike id)]
    -- Only registered identifiers are asked, and none of them is equal to this one.
    have agree : ∀ other ∈ history.map Node.id, decide (other.Alike id) = other.sameIgnoringCase id := by
      intro other member
      have apart : other ≠ id := fun same => fresh (same ▸ member)
      simp [NodeId.alike_iff_sameIgnoringCase apart]
    rw [← List.head?_filter, List.filter_congr agree, List.head?_filter]

end

/-- An identifier is looked up within the list. -/
theorem slot?_lt_size {r : Registry} {id : NodeId} {i : Nat} (h : r.slot? id = some i) : i < r.size := by
  rcases Option.or_eq_some_iff.mp h with exact | ⟨_, spelled⟩
  · obtain ⟨n, there, _⟩ := getElem?_toList_of_slot exact
    have bound := (List.getElem?_eq_some_iff.mp there).1
    simpa [toList, size] using bound
  · obtain ⟨key, _, first⟩ := Option.bind_eq_some_iff.mp spelled
    exact ((r.spellings_iff key i).mp first).lt_size

end Registry

/-- After any registrations, the registry lists the last node of each identifier in the order in which
identifiers were first registered, finds the node that the history tells, contains what has been
registered, and looks nowhere else than at its nodes.
-/
theorem registry_tells_history (history : List Node)
    : let r := (∅ : Registry).registerAll history
      r.toList.map Node.id = (history.map Node.id).eraseDups
      ∧ r.toList = (history.map Node.id).eraseDups.filterMap (latest? history)
      ∧ (∀ id, r.node? id = lookUp? history id)
      ∧ (∀ id, r.contains id ↔ ∃ n ∈ history, n.id = id)
      ∧ ∀ id i, r.slot? id = some i → i < r.nodes.size := by
  intro r
  refine ⟨Registry.map_id_registered history, Registry.toList_registered history,
    Registry.node?_registered history, fun id => ?_, fun id i => Registry.slot?_lt_size⟩
  rw [Registry.contains_iff, Registry.map_id_registered, List.mem_eraseDups, List.mem_map]

end DesignMetrics
