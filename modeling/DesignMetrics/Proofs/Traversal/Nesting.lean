import DesignMetrics.Proofs.Traversal.Tour

/-! What is open during a walk.
Only what was entered last can be left, so what is open after the first events of a walk is a chain
from the innermost visit out to a unit. Units stand in nothing. A fault cuts a walk short, and then
the chain at the fault stays open.
-/

namespace DesignMetrics

def Visit.isUnit : Visit → Bool
  | .unit _ => true
  | _ => false

/-- Whether events lead from one chain of open visits to another, the innermost first. What is left
is the innermost one, and units are entered only where nothing is open.
-/
inductive Chained : List Visit → List Event → List Visit → Prop
  | nil {chain : List Visit} : Chained chain [] chain
  | enter {v : Visit} {chain last : List Visit} {events : List Event}
    : (v.isUnit → chain = []) → Chained (v :: chain) events last
      → Chained chain (.enter v :: events) last
  | leave {v : Visit} {chain last : List Visit} {events : List Event}
    : Chained chain events last → Chained (v :: chain) (.leave v :: events) last

namespace Chained

variable {chain middle last : List Visit} {events more : List Event}

theorem append (first : Chained chain events middle) (second : Chained middle more last)
    : Chained chain (events ++ more) last := by
  induction first with
  | nil => exact second
  | enter root _ ih => exact .enter root (ih second)
  | leave _ ih => exact .leave (ih second)

theorem split (h : Chained chain (events ++ more) last)
    : ∃ middle, Chained chain events middle ∧ Chained middle more last := by
  induction events generalizing chain with
  | nil => exact ⟨chain, .nil, h⟩
  | cons e events ih =>
    cases h with
    | enter root rest =>
      obtain ⟨middle, before, after⟩ := ih rest
      exact ⟨middle, .enter root before, after⟩
    | leave rest =>
      obtain ⟨middle, before, after⟩ := ih rest
      exact ⟨middle, .leave before, after⟩

/-- Every first part of the events has a chain of its own. -/
theorem of_begun (h : Chained chain more last) (first : events <+: more)
    : ∃ middle, Chained chain events middle := by
  obtain ⟨rest, rfl⟩ := first
  obtain ⟨middle, before, _⟩ := h.split
  exact ⟨middle, before⟩

end Chained

def Rooted (chain : List Visit) : Prop :=
  ∀ u rest, (.unit u :: rest) <:+ chain → rest = []

namespace Rooted

variable {v : Visit} {chain : List Visit}

theorem nil : Rooted [] := by simp [Rooted]

theorem cons (h : Rooted chain) (root : v.isUnit → chain = []) : Rooted (v :: chain) := by
  intro u rest suffix
  rcases List.suffix_cons_iff.mp suffix with same | inner
  · obtain ⟨rfl, rfl⟩ := List.cons.inj same
    exact root rfl
  · exact h u rest inner

theorem tail (h : Rooted (v :: chain)) : Rooted chain :=
  fun u rest suffix => h u rest (suffix.trans (List.suffix_cons v chain))

theorem unit {u : CompilationUnit} (h : Rooted (.unit u :: chain)) : chain = [] :=
  h u chain (List.suffix_refl _)

end Rooted

-- What is around a visit

def Item.FitsIn (chain : List Visit) : Item → Prop
  | unit _ => chain = []
  | part _ => chain ≠ []
  | member id => ∃ t rest, chain = .type t :: rest ∧ id ∈ t.members

/-- Whether something may be entered inside the open visits: units in nothing, methods and properties
directly in a type whose member list names them, and all else in something.
-/
def Visit.FitsIn (r : Registry) (chain : List Visit) : Visit → Prop
  | unit _ => chain = []
  | method m => ∃ t rest, chain = .type t :: rest ∧ ∃ id ∈ t.members, r.node? id = some (.method m)
  | property p =>
    ∃ t rest, chain = .type t :: rest ∧ ∃ id ∈ t.members, r.node? id = some (.property p)
  | space _ | type _ | function _ | stmt _ | expr _ => chain ≠ []

variable {chain : List Visit} {r : Registry} {v : Visit}

/-- What is visited stands where its item stands, and what is written in it stands in the visit. -/
theorem Visited.fits {item : Item} {written : List Item} (h : Visited r item v written)
    (fits : item.FitsIn chain)
    : v.FitsIn r chain ∧ ∀ i ∈ written, i.FitsIn (v :: chain) := by
  have body (v : Visit) (parts : List Part) : ∀ i ∈ parts.map Item.part, i.FitsIn (v :: chain) := by
    intro i member
    obtain ⟨p, _, rfl⟩ := List.mem_map.mp member
    simp [Item.FitsIn]
  cases h with
  | unit u => exact ⟨fits, body _ _⟩
  | part visit =>
    refine ⟨?_, body _ _⟩
    unfold Part.visit? at visit
    split at visit <;> simp at visit <;> subst visit <;> exact fits
  | type found =>
    refine ⟨fits, fun i member => ?_⟩
    obtain ⟨id, listed, rfl⟩ := List.mem_map.mp member
    exact ⟨_, chain, rfl, listed⟩
  | function found => exact ⟨fits, body _ _⟩
  | @method id m found =>
    obtain ⟨t, rest, around, listed⟩ := fits
    exact ⟨⟨t, rest, around, id, listed, found⟩, body _ _⟩
  | @property id p found =>
    obtain ⟨t, rest, around, listed⟩ := fits
    exact ⟨⟨t, rest, around, id, listed, found⟩, by simp⟩

theorem Visit.FitsIn.root (h : v.FitsIn r chain) (unit : v.isUnit) : chain = [] := by
  cases v <;> first | exact h | simp [isUnit] at unit

-- Walks in a chain

namespace Walk

def Nests (chain : List Visit) (w : Walk) : Prop :=
  ∃ last, Chained chain w.events last ∧ (w.fault = none → last = chain)

theorem Nests.andThen {first next : Walk} (h : Nests chain first) (after : Nests chain next)
    : Nests chain (first.andThen next) := by
  obtain ⟨middle, events, back⟩ := h
  obtain ⟨last, rest, home⟩ := after
  unfold Walk.andThen
  cases fine : first.fault with
  | some fault => exact ⟨middle, events, by simp [fine]⟩
  | none =>
    obtain rfl := back fine
    exact ⟨last, events.append rest, home⟩

theorem Nests.inside {inner : Walk} (h : Nests (v :: chain) inner) (root : v.isUnit → chain = [])
    : Nests chain (inside v inner) := by
  obtain ⟨last, events, back⟩ := h
  unfold Walk.inside
  cases fine : inner.fault with
  | some fault => exact ⟨last, .enter root events, by simp⟩
  | none =>
    obtain rfl := back fine
    exact ⟨chain, .enter root (events.append (.leave .nil)), fun _ => rfl⟩

end Walk

/-- Items that fit in what is open are walked through there. -/
theorem Walked.nests {items : List Item} {w : Walk} (h : Walked r items w)
    (fits : ∀ i ∈ items, i.FitsIn chain) : w.Nests chain := by
  induction h generalizing chain with
  | done | failed => exact ⟨chain, .nil, fun _ => rfl⟩
  | bare _ _ ih => exact ih fun i member => fits i (List.mem_cons_of_mem _ member)
  | visit visited _ _ inner_ih rest_ih =>
    obtain ⟨here, inner⟩ := visited.fits (fits _ List.mem_cons_self)
    exact ((inner_ih inner).inside here.root).andThen
      (rest_ih fun i member => fits i (List.mem_cons_of_mem _ member))

theorem Walk.nests_unitsTo (r : Registry) (depth : Nat) (units : List CompilationUnit)
    : Nests [] (unitsTo r depth units) :=
  (Walked.unitsTo r depth units).nests (by simp [Item.FitsIn])

end DesignMetrics
