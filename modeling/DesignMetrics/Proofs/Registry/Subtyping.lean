import DesignMetrics.Proofs.Registry.Inheritance

/-! Subtypes are the types that lead up to another one.
The search for a super type ends by itself, without a limit on its steps, and its answer says whether
the identifier of one type can be reached from that of the other by going to parents and interfaces.
-/

namespace DesignMetrics

namespace Registry

variable {r : Registry}

/-- Whether a type is one that the registry yields: it is registered, or a name of a class or an
interface stands for it, be it as a placeholder.
-/
def Yields (r : Registry) (t : TypeNode) : Prop :=
  t ∈ r.types ∨ ∃ kind name, r.typeOfKind? kind name = some t

/-- Whether a type with the first identifier has one with the second as its parent or one of its
interfaces.
-/
def StepsUp (r : Registry) (a b : NodeId) : Prop :=
  ∃ t u, r.Yields t ∧ (r.parentOf? t = some u ∨ u ∈ r.interfacesOf t) ∧ t.id = a ∧ u.id = b

variable {t : TypeNode}

/-- Identifiers tell apart the types that a registry yields. -/
theorem Yields.typeAt (h : r.Yields t) : r.typeAt t.id = t := by
  rcases h with registered | ⟨_, _, found⟩
  · exact typeAt_of_mem (mem_types.mp registered)
  · exact typeAt_typeOfKind? found

theorem mem_superTypes {u : TypeNode}
    : u ∈ r.superTypes t ↔ r.parentOf? t = some u ∨ u ∈ r.interfacesOf t := by
  simp [superTypes]

theorem yields_of_mem_superTypes {u : TypeNode} (h : u ∈ r.superTypes t) : r.Yields u := by
  rcases mem_superTypes.mp h with parent | interface
  · obtain ⟨name, _, found⟩ := Option.bind_eq_some_iff.mp parent
    exact .inr ⟨_, name, found⟩
  · obtain ⟨name, _, found⟩ := List.mem_filterMap.mp interface
    exact .inr ⟨_, name, found⟩

/-- A way from type to type is one from identifier to identifier. -/
theorem Inherits.reaches {u : TypeNode} (h : r.Yields t) (way : r.Inherits t u)
    : r.Yields u ∧ Relation.ReflTransGen r.StepsUp t.id u.id := by
  induction way with
  | refl => exact ⟨h, .refl⟩
  | tail _ above ih =>
    exact ⟨yields_of_mem_superTypes above,
      ih.2.tail ⟨_, _, ih.1, mem_superTypes.mp above, rfl, rfl⟩⟩

/-- Going from identifier to identifier follows a way from type to type, since no two types have one
identifier.
-/
theorem inherits_of_reaches (h : r.Yields t) {id : NodeId}
    (way : Relation.ReflTransGen r.StepsUp t.id id) : ∃ u, r.Inherits t u ∧ u.id = id := by
  induction way with
  | refl => exact ⟨t, .refl, rfl⟩
  | tail _ step ih =>
    obtain ⟨u, below, rfl⟩ := ih
    obtain ⟨s, v, yields, above, same, rfl⟩ := step
    obtain rfl : s = u := by rw [← yields.typeAt, same, (Inherits.reaches h below).1.typeAt]
    exact ⟨v, below.tail (mem_superTypes.mpr above), rfl⟩

/-- What asking whether a type inherits from another one comes to, with no limit on the search. -/
inductive Decides (r : Registry) (t other : TypeNode) : Bool → Prop
  | same (equal : t.id = other.id) : Decides r t other true
  | searched {answer : Bool} (apart : t.id ≠ other.id)
      (search : Search r other.id [t.id] (r.superTypes t) answer) : Decides r t other answer

/-- A search has one answer at most. -/
theorem Search.answer_unique {goal : NodeId} {seen : List NodeId} {queue : List TypeNode}
    {answer answer' : Bool} (h : Search r goal seen queue answer)
    (h' : Search r goal seen queue answer') : answer = answer' := by
  induction h with
  | exhausted =>
    cases h'
    rfl
  | found here =>
    cases h' with
    | found => rfl
    | passed elsewhere | entered elsewhere => exact absurd here elsewhere
  | passed elsewhere known _ ih =>
    cases h' with
    | found here => exact absurd here elsewhere
    | passed _ _ rest => exact ih rest
    | entered _ fresh => exact absurd known fresh
  | entered elsewhere fresh _ ih =>
    cases h' with
    | found here => exact absurd here elsewhere
    | passed _ known => exact absurd known fresh
    | entered _ _ rest => exact ih rest

theorem Decides.answer_unique {other : TypeNode} {answer answer' : Bool}
    (h : r.Decides t other answer) (h' : r.Decides t other answer') : answer = answer' := by
  cases h with
  | same equal =>
    cases h' with
    | same => rfl
    | searched apart => exact absurd equal apart
  | searched apart search =>
    cases h' with
    | same equal => exact absurd equal apart
    | searched _ search' => exact search.answer_unique search'

/-- Asking comes to an end. -/
theorem decides_isSubtype (t other : TypeNode) : r.Decides t other (r.isSubtype t other) := by
  unfold isSubtype
  by_cases equal : t.id = other.id
  · rw [decide_eq_true equal]
    exact .same equal
  · rw [decide_eq_false equal]
    exact .searched equal
      (search_searchUp (fun s => typeAt_of_mem_superTypes) (searchLoad_lt_searchSteps t))

theorem isSubtype_iff_reaches {other : TypeNode} (h : r.Yields t)
    : r.isSubtype t other ↔ Relation.ReflTransGen r.StepsUp t.id other.id := by
  rw [isSubtype_iff h.typeAt]
  constructor
  · rintro ⟨u, way, same⟩
    exact same ▸ (Inherits.reaches h way).2
  · exact inherits_of_reaches h

end Registry

/-- Asking whether a type that a registry yields inherits from another one comes to an end with one
answer, which is whether the identifier of the second can be reached from that of the first. So every
type inherits from itself, and from all that those inherit from which it inherits from.
-/
theorem inherits_iff_reachable (r : Registry)
    : (∀ a b, r.Yields a
        → (∃ answer, r.Decides a b answer)
          ∧ (∀ answer, r.Decides a b answer → answer = r.isSubtype a b)
          ∧ (r.isSubtype a b ↔ Relation.ReflTransGen r.StepsUp a.id b.id))
      ∧ (∀ a, r.Yields a → r.isSubtype a a)
      ∧ ∀ a b c, r.Yields a → r.Yields b
        → r.isSubtype a b → r.isSubtype b c → r.isSubtype a c := by
  refine ⟨fun a b left => ⟨⟨_, Registry.decides_isSubtype a b⟩, fun answer ends => ?_,
    Registry.isSubtype_iff_reaches left⟩, fun a own => ?_, fun a b c left middle first second => ?_⟩
  · exact ends.answer_unique (Registry.decides_isSubtype a b)
  · exact (Registry.isSubtype_iff_reaches own).mpr .refl
  · rw [Registry.isSubtype_iff_reaches left] at first ⊢
    rw [Registry.isSubtype_iff_reaches middle] at second
    exact first.trans second

def extending (name other : String) : TypeNode :=
  { TypeNode.placeholder name .interfaceType with userDefined := true, refs := ⟨"", none, [other]⟩ }

def implementing : TypeNode :=
  { TypeNode.placeholder "C" .classType with userDefined := true, refs := ⟨"", some "Base", ["a"]⟩ }

def circle : Registry :=
  (∅ : Registry).registerAll
    [.type (extending "A" "B"), .type (extending "B" "A"), .type implementing]

/-- From the class both interfaces and the placeholder of its parent are reached. The search for the
class from one of the interfaces goes around once and ends.
-/
theorem inherits_in_circle
    : circle.Yields implementing ∧ circle.Yields (extending "B" "A")
      ∧ Relation.ReflTransGen circle.StepsUp (.classType "C") (.interfaceType "B")
      ∧ Relation.ReflTransGen circle.StepsUp (.classType "C") (.classType "Base")
      ∧ ¬ Relation.ReflTransGen circle.StepsUp (.interfaceType "B") (.classType "C")
      ∧ circle.Decides (extending "B" "A") implementing false := by
  have own : circle.Yields implementing := .inr ⟨.classType, "C", rfl⟩
  have other : circle.Yields (extending "B" "A") := .inr ⟨.interfaceType, "B", rfl⟩
  obtain ⟨asked, _⟩ := inherits_iff_reachable circle
  obtain ⟨_, _, up⟩ := asked implementing (extending "B" "A") own
  obtain ⟨_, _, base⟩ := asked implementing (.placeholder "Base" .classType) own
  obtain ⟨⟨answer, ends⟩, one, down⟩ := asked (extending "B" "A") implementing other
  have missed : circle.isSubtype (extending "B" "A") implementing = false := by decide +kernel
  refine ⟨own, other, up.mp (by decide +kernel), base.mp (by decide +kernel), ?_, ?_⟩
  · exact fun way => absurd (down.mpr way) (by simp [missed])
  · rw [one answer ends, missed] at ends
    exact ends

end DesignMetrics
