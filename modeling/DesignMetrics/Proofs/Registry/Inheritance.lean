import Mathlib.Algebra.GroupWithZero.Nat
import Mathlib.Logic.Relation
import DesignMetrics.Metric.Reference
import DesignMetrics.Model.Subtype
import DesignMetrics.Proofs.Registry.ListView

/-! Types as the registry yields them, and what they inherit from.
A type that is looked up is registered, or it is the placeholder of its name. The search for super types
goes through all that can be reached from a type, so it finds a type if and only if there is a way to
it.
-/

namespace DesignMetrics.Registry

/-- The type that an identifier stands for, or a placeholder. -/
def typeAt (r : Registry) (id : NodeId) : TypeNode :=
  (r.typeNode? id).getD (.placeholder id.key
    (if id.kind? = some .interfaceType then .interfaceType else .classType))

variable {r : Registry} {t : TypeNode}

theorem typeNode?_of_mem (h : .type t ∈ r.toList) : r.typeNode? t.id = some t := by
  have found : r.node? t.id = some (.type t) := node?_of_mem h
  simp [typeNode?, found, Node.type?]

variable {id goal : NodeId} {queue : List TypeNode}

theorem node?_of_typeNode? (h : r.typeNode? id = some t) : r.node? id = some (.type t) := by
  obtain ⟨n, found, type⟩ := Option.bind_eq_some_iff.mp h
  cases n with
  | type u => rw [found, Option.some.inj type]
  | _ => simp [Node.type?] at type

theorem mem_of_typeNode? (h : r.typeNode? id = some t) : .type t ∈ r.toList :=
  (alike_of_node? (node?_of_typeNode? h)).1

theorem alike_of_typeNode? (h : r.typeNode? id = some t) : t.id.Alike id :=
  (alike_of_node? (node?_of_typeNode? h)).2

theorem mem_types : t ∈ r.types ↔ .type t ∈ r.toList := by
  rw [types, List.mem_filterMap]
  constructor
  · rintro ⟨n, member, type⟩
    cases n with
    | type u => exact Option.some.inj type ▸ member
    | _ => simp [Node.type?] at type
  · exact fun member => ⟨.type t, member, rfl⟩

theorem typeAt_of_mem (h : .type t ∈ r.toList) : r.typeAt t.id = t := by
  simp [typeAt, typeNode?_of_mem h]

theorem typeAt_typeNode? (h : r.typeNode? id = some t) : r.typeAt t.id = t :=
  typeAt_of_mem (mem_of_typeNode? h)

theorem typeAt_typeOfKind? {kind : TypeKind} {name : String} (h : r.typeOfKind? kind name = some t)
    : r.typeAt t.id = t := by
  unfold typeOfKind? at h
  split at h
  · simp at h
  · cases found : r.typeNode? (.ofKey name kind.nodeKind) with
    | some u =>
      obtain rfl : u = t := by simpa [found] using h
      exact typeAt_typeNode? found
    | none =>
      obtain rfl : .placeholder name kind = t := by simpa [found] using h
      have own : (TypeNode.placeholder name kind).id = .ofKey name kind.nodeKind := rfl
      rw [own, typeAt, found]
      cases kind <;> simp [TypeKind.nodeKind]

theorem typeAt_type? {name : String} (h : r.type? name = some t) : r.typeAt t.id = t := by
  unfold type? at h
  split at h
  · simp at h
  · rcases Option.or_eq_some_iff.mp h with found | ⟨_, found⟩
    · exact typeAt_typeNode? found
    · exact typeAt_typeOfKind? found

theorem typeAt_parentOf? {s : TypeNode} (h : r.parentOf? s = some t) : r.typeAt t.id = t := by
  obtain ⟨_, _, found⟩ := Option.bind_eq_some_iff.mp h
  exact typeAt_typeOfKind? found

theorem typeAt_of_mem_superTypes {s : TypeNode} (h : t ∈ r.superTypes s) : r.typeAt t.id = t := by
  rcases List.mem_append.mp h with parent | interface
  · exact typeAt_parentOf? (Option.mem_toList.mp parent)
  · obtain ⟨_, _, found⟩ := List.mem_filterMap.mp interface
    exact typeAt_typeOfKind? found

theorem typeAt_resolveType? {current : Option TypeNode} {ref : TypeRef}
    (h : r.resolveType? current ref = some t) : r.typeAt t.id = t := by
  cases ref with
  | named name => exact typeAt_type? h
  | selfType | staticType =>
    obtain ⟨_, _, found⟩ := Option.bind_eq_some_iff.mp h
    exact typeAt_type? found
  | parentType =>
    obtain ⟨_, _, found⟩ := Option.bind_eq_some_iff.mp h
    exact typeAt_parentOf? found
  | scalar => simp [resolveType?] at h

/-- A type that its identifier stands for is registered, or a placeholder. -/
theorem typeAt_cases (h : r.typeAt t.id = t)
    : .type t ∈ r.toList ∨ r.typeNode? t.id = none ∧ ∃ name kind, t = .placeholder name kind := by
  unfold typeAt at h
  cases found : r.typeNode? t.id with
  | some u =>
    obtain rfl : u = t := by simpa [found] using h
    exact .inl (mem_of_typeNode? found)
  | none => exact .inr ⟨rfl, _, _, by simpa [found] using h.symm⟩

/-- Whether a type is another one, or can be followed to it from super type to super type. -/
def Inherits (r : Registry) : TypeNode → TypeNode → Prop :=
  Relation.ReflTransGen fun t u => u ∈ r.superTypes t

theorem typeAt_of_inherits {u : TypeNode} (standing : r.typeAt t.id = t) (way : r.Inherits t u)
    : r.typeAt u.id = u := by
  induction way with
  | refl => exact standing
  | tail _ above => exact typeAt_of_mem_superTypes above

theorem superTypes_placeholder (name : String) (kind : TypeKind)
    : r.superTypes (.placeholder name kind) = [] := rfl

theorem length_superTypes_le (t : TypeNode) : (r.superTypes t).length ≤ superCount t := by
  have parent : (r.parentOf? t).toList.length ≤ 1 := by cases r.parentOf? t <;> simp
  have interfaces : (r.interfacesOf t).length ≤ t.refs.interfaces.length := List.length_filterMap_le ..
  rw [superTypes, List.length_append, superCount]
  omega

def searchLoad (r : Registry) (seen : List NodeId) (queue : List TypeNode) : Nat :=
  queue.length + ((r.types.filter fun u => u.id ∉ seen).map superCount).sum

theorem sum_superCount_mono (types : List TypeNode) (a : NodeId) (seen : List NodeId)
    : ((types.filter fun u => u.id ∉ a :: seen).map superCount).sum
      ≤ ((types.filter fun u => u.id ∉ seen).map superCount).sum := by
  induction types with
  | nil => simp
  | cons u types ih =>
    simp only [List.filter_cons]
    split
    · rename_i fresh
      have fresh' : u.id ∉ seen := by simp_all
      simpa [fresh'] using ih
    · split
      · rw [List.map_cons, List.sum_cons]
        omega
      · exact ih

variable {seen : List NodeId}

/-- Coming to a type takes its super types off the load. -/
theorem sum_superCount_le {types : List TypeNode} (member : t ∈ types) (fresh : t.id ∉ seen)
    : ((types.filter fun u => u.id ∉ t.id :: seen).map superCount).sum + superCount t
      ≤ ((types.filter fun u => u.id ∉ seen).map superCount).sum := by
  induction types with
  | nil => simp at member
  | cons u types ih =>
    rcases List.mem_cons.mp member with rfl | later
    · have rest := sum_superCount_mono types t.id seen
      simp [fresh] at rest ⊢
      omega
    · have rest := ih later
      simp only [List.filter_cons]
      split <;> split <;> simp_all <;> omega

theorem searchLoad_lt (queue : List TypeNode) (standing : r.typeAt t.id = t) (fresh : t.id ∉ seen)
    : r.searchLoad (t.id :: seen) (queue ++ r.superTypes t) < r.searchLoad seen (t :: queue) := by
  have few := r.length_superTypes_le t
  simp only [searchLoad, List.length_append, List.length_cons]
  rcases typeAt_cases standing with there | ⟨_, name, kind, rfl⟩
  · have less := sum_superCount_le (mem_types.mpr there) fresh
    omega
  · have fewer := sum_superCount_mono r.types (TypeNode.placeholder name kind).id seen
    rw [superTypes_placeholder, List.length_nil]
    omega

/-- A search begins with less to look at than it may take steps. -/
theorem searchLoad_lt_searchSteps (t : TypeNode)
    : r.searchLoad [t.id] (r.superTypes t) < r.searchSteps t := by
  have few := r.length_superTypes_le t
  have whole : (r.types.filter fun u => u.id ∉ ([] : List NodeId)) = r.types :=
    List.filter_eq_self.mpr (by simp)
  have rest := sum_superCount_mono r.types t.id []
  rw [whole] at rest
  have all (types : List TypeNode) (n : Nat)
      : types.foldl (fun n u => n + superCount u) n = n + (types.map superCount).sum := by
    induction types generalizing n with
    | nil => simp
    | cons u types ih => simp [ih, Nat.add_assoc]
  simp only [searchLoad, searchSteps, all]
  omega

/-- What a search comes to that may take as many steps as it needs, having seen some types and with
others waiting.
-/
inductive Search (r : Registry) (goal : NodeId) : List NodeId → List TypeNode → Bool → Prop
  | exhausted {seen : List NodeId} : Search r goal seen [] false
  | found {seen : List NodeId} {t : TypeNode} {queue : List TypeNode} (here : t.id = goal)
    : Search r goal seen (t :: queue) true
  | passed {seen : List NodeId} {t : TypeNode} {queue : List TypeNode} {answer : Bool}
      (elsewhere : t.id ≠ goal) (known : t.id ∈ seen) (rest : Search r goal seen queue answer)
    : Search r goal seen (t :: queue) answer
  | entered {seen : List NodeId} {t : TypeNode} {queue : List TypeNode} {answer : Bool}
      (elsewhere : t.id ≠ goal) (fresh : t.id ∉ seen)
      (rest : Search r goal (t.id :: seen) (queue ++ r.superTypes t) answer)
    : Search r goal seen (t :: queue) answer

/-- A search with more steps than it has to look at comes to its end within them, by induction on the
steps. Every step takes something off the load.
-/
theorem search_searchUp {n : Nat} {seen : List NodeId} (standing : ∀ t ∈ queue, r.typeAt t.id = t)
    (enough : r.searchLoad seen queue < n)
    : Search r goal seen queue (r.searchUp goal n seen queue) := by
  induction n generalizing seen queue with
  | zero => simp at enough
  | succ n ih =>
    cases queue with
    | nil => exact .exhausted
    | cons t queue =>
      have rest : ∀ s ∈ queue, r.typeAt s.id = s := fun s member =>
        standing s (List.mem_cons_of_mem _ member)
      rw [searchUp]
      split
      · rename_i here
        exact .found here
      · rename_i elsewhere
        split
        · rename_i known
          have less : r.searchLoad seen queue < n := by
            simp only [searchLoad, List.length_cons] at enough ⊢
            omega
          exact .passed elsewhere known (ih rest less)
        · rename_i fresh
          have less := Nat.lt_of_lt_of_le (searchLoad_lt queue (standing t (by simp)) fresh)
            (Nat.le_of_lt_succ enough)
          refine .entered elsewhere fresh (ih (fun s member => ?_) less)
          rcases List.mem_append.mp member with queued | above
          · exact rest s queued
          · exact typeAt_of_mem_superTypes above

/-- A search finds only what can be reached. -/
theorem Search.inherits (h : Search r goal seen queue true)
    : ∃ t ∈ queue, ∃ u, r.Inherits t u ∧ u.id = goal := by
  generalize yes : true = answer at h
  induction h with
  | exhausted => cases yes
  | @found _ t _ here => exact ⟨t, by simp, t, .refl, here⟩
  | passed _ _ _ ih =>
    obtain ⟨s, member, way⟩ := ih yes
    exact ⟨s, List.mem_cons_of_mem _ member, way⟩
  | @entered _ t _ _ _ _ _ ih =>
    obtain ⟨s, member, u, way, here⟩ := ih yes
    rcases List.mem_append.mp member with waiting | above
    · exact ⟨s, List.mem_cons_of_mem _ waiting, u, way, here⟩
    · exact ⟨t, by simp, u, .head above way, here⟩

/-- A search that fails has gone through types that nothing leads out of. -/
theorem Search.closed (h : Search r goal seen queue false) (standing : ∀ t ∈ queue, r.typeAt t.id = t)
    (other : goal ∉ seen)
    (closed : ∀ t, r.typeAt t.id = t → t.id ∈ seen → ∀ u ∈ r.superTypes t, u.id ∈ seen ∨ u ∈ queue)
    : ∃ all : List NodeId, seen ⊆ all ∧ (∀ t ∈ queue, t.id ∈ all) ∧ goal ∉ all
      ∧ ∀ t, r.typeAt t.id = t → t.id ∈ all → ∀ u ∈ r.superTypes t, u.id ∈ all := by
  generalize no : false = answer at h
  induction h with
  | @exhausted seen =>
    exact ⟨seen, fun _ => id, by simp, other, fun t at_t known u above => by
      simpa using closed t at_t known u above⟩
  | found => cases no
  | passed _ known _ ih =>
    obtain ⟨rest, standing⟩ := List.forall_mem_cons.mp standing
    obtain ⟨all, before, waiting, apart, stays⟩ := ih standing other (by grind) no
    exact ⟨all, before, List.forall_mem_cons.mpr ⟨before known, waiting⟩, apart, stays⟩
  | @entered seen t queue _ elsewhere _ _ ih =>
    obtain ⟨own, standing⟩ := List.forall_mem_cons.mp standing
    have next : ∀ s ∈ queue ++ r.superTypes t, r.typeAt s.id = s :=
      List.forall_mem_append.mpr ⟨standing, fun s => typeAt_of_mem_superTypes⟩
    obtain ⟨all, before, waiting, apart, stays⟩ := ih next (by simp [other, Ne.symm elsewhere])
      (fun s at_s inside u above => by
        rcases List.mem_cons.mp inside with same | known
        · have same : s = t := by rw [← at_s, same, own]
          exact .inr (List.mem_append_right _ (same ▸ above))
        · grind) no
    obtain ⟨here, before⟩ := List.cons_subset.mp before
    exact ⟨all, before, List.forall_mem_cons.mpr ⟨here, (List.forall_mem_append.mp waiting).1⟩, apart,
      stays⟩

/-- A type inherits from another one if and only if there is a way to it. -/
theorem isSubtype_iff {other : TypeNode} (standing : r.typeAt t.id = t)
    : r.isSubtype t other ↔ ∃ u, r.Inherits t u ∧ u.id = other.id := by
  have search : Search r other.id [t.id] (r.superTypes t) _ :=
    search_searchUp (fun s => typeAt_of_mem_superTypes) (searchLoad_lt_searchSteps t)
  rw [isSubtype, Bool.or_eq_true, decide_eq_true_eq]
  constructor
  · rintro (same | found)
    · exact ⟨t, .refl, same⟩
    · obtain ⟨s, above, u, way, here⟩ := (found ▸ search : Search r _ _ _ true).inherits
      exact ⟨u, .head above way, here⟩
  · rintro ⟨u, way, here⟩
    by_cases elsewhere : t.id = other.id
    · exact .inl elsewhere
    right
    rw [← Bool.not_eq_false]
    intro missed
    rw [missed] at search
    obtain ⟨all, before, waiting, apart, stays⟩ := search.closed
      (fun s above => typeAt_of_mem_superTypes above) (by simpa [eq_comm] using elsewhere)
      (fun s at_s known u above => by
        have same : s = t := by rw [← at_s, List.mem_singleton.mp known, standing]
        exact .inr (same ▸ above))
    -- Everything on the way is among the types that the search has gone through.
    have reached : u.id ∈ all := by
      clear here
      induction way with
      | refl => exact before (by simp)
      | tail way above ih => exact stays _ (typeAt_of_inherits standing way) ih _ above
    exact apart (here ▸ reached)

end DesignMetrics.Registry
