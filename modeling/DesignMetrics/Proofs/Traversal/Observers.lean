import DesignMetrics.Traversal.Observer

/-! Observers on a walk, one by one.
A traversal has a fault exactly if the walk has one or one of the observers, told all events alone,
refuses one of them.
-/

namespace DesignMetrics

namespace Traversal

variable {σ φ : Type} [Observer σ φ] {r : Registry}

/-- Tells events to one observer, until it refuses one. -/
def observeAll (r : Registry) : List Event → σ → Except φ σ
  | [], s => .ok s
  | e :: events, s => (Observer.observe r e s).bind (observeAll r events)

variable {observers : List σ}

/-- An event is refused by nobody if each observer takes it. -/
theorem tell_refusal_iff {e : Event}
    : (tell r e observers).2 = none ↔ ∀ s ∈ observers, ∃ s', Observer.observe r e s = .ok s' := by
  induction observers with
  | nil => simp [tell]
  | cons s rest ih => cases step : Observer.observe r e s <;> simp [tell, step, ih]

/-- The observers after an event that nobody refuses. -/
theorem tell_states {e : Event} (h : (tell r e observers).2 = none)
    : (tell r e observers).1.map .ok = observers.map (Observer.observe r e) := by
  induction observers with
  | nil => rfl
  | cons s rest ih =>
    cases step : Observer.observe r e s with
    | error => simp [tell, step] at h
    | ok s' =>
      simp only [tell, step] at h ⊢
      simp [step, ih h]

/-- Events are refused by nobody if each observer takes all of them. -/
theorem tellAll_fault_iff (before : String) {events : List Event}
    : (tellAll r before events observers).fault = none
      ↔ ∀ s ∈ observers, ∃ s', observeAll r events s = .ok s' := by
  induction events generalizing before observers with
  | nil => simp [tellAll, observeAll]
  | cons e events ih =>
    rw [tellAll]
    split
    · rename_i outcome
      have refused : (tell r e observers).2 ≠ none := by simp [outcome]
      rw [ne_eq, tell_refusal_iff] at refused
      simp only [reduceCtorEq, false_iff]
      intro all
      refine refused fun s member => ?_
      obtain ⟨s', done⟩ := all s member
      cases step : Observer.observe r e s with
      | error => simp [observeAll, step, Except.bind] at done
      | ok next => exact ⟨next, rfl⟩
    · rename_i next outcome
      have taken : (tell r e observers).2 = none := by simp [outcome]
      have states := tell_states taken
      rw [outcome] at states
      rw [ih]
      constructor
      · intro all s member
        obtain ⟨s', later, step⟩ : ∃ s' ∈ next, Except.ok s' = Observer.observe r e s := by
          rw [← List.mem_map, states]
          exact List.mem_map_of_mem member
        simp only [observeAll, ← step]
        exact all s' later
      · intro all s' member
        obtain ⟨s, earlier, step⟩ : ∃ s ∈ observers, Observer.observe r e s = Except.ok s' := by
          rw [← List.mem_map, ← states]
          exact List.mem_map_of_mem member
        have done := all s earlier
        simp only [observeAll, step] at done
        exact done

/-- The observers after events that nobody refuses. -/
theorem tellAll_states (before : String) {events : List Event}
    (h : (tellAll r before events observers).fault = none)
    : (tellAll r before events observers).observers.map .ok
      = observers.map (observeAll r events) := by
  induction events generalizing before observers with
  | nil => rfl
  | cons e events ih =>
    rw [tellAll] at h ⊢
    split at h
    · simp at h
    · rename_i next outcome
      have states := tell_states (show (tell r e observers).2 = none by simp [outcome])
      simp only [outcome] at states ⊢
      have each : observers.map (observeAll r (e :: events))
          = (observers.map (Observer.observe r e)).map (·.bind (observeAll r events)) := by
        simp [observeAll]
      rw [ih _ h, each, ← states, List.map_map]
      rfl

/-- The fault of a traversal is the first refusal, or else that of the walk. -/
theorem follow_eq (walk : Walk) (observers : List σ)
    : follow r walk observers
      = ⟨(tellAll r "" walk.events observers).observers,
          (tellAll r "" walk.events observers).fault.or (walk.fault.map .broken)⟩ := by
  rw [follow]
  split <;> rename_i outcome <;> simp [outcome]

/-- A traversal has no fault if the walk has none and each observer takes all events. -/
theorem follow_fault_iff {walk : Walk}
    : (follow r walk observers).fault = none
      ↔ walk.fault = none ∧ ∀ s ∈ observers, ∃ s', observeAll r walk.events s = .ok s' := by
  rw [← tellAll_fault_iff "", follow_eq]
  simp [and_comm]

/-- The observers after a traversal without a fault. -/
theorem follow_states {walk : Walk} (h : (follow r walk observers).fault = none)
    : (follow r walk observers).observers.map .ok = observers.map (observeAll r walk.events) := by
  rw [follow_eq] at h ⊢
  exact tellAll_states "" (Option.or_eq_none_iff.mp h).1

/-- An observer that never refuses takes all events. -/
theorem observeAll_ok (never : ∀ e (s : σ), ∃ s', Observer.observe r e s = .ok s')
    (events : List Event) (s : σ) : ∃ s', observeAll r events s = .ok s' := by
  induction events generalizing s with
  | nil => exact ⟨s, rfl⟩
  | cons e events ih =>
    obtain ⟨next, step⟩ := never e s
    rw [observeAll, step]
    exact ih next

end Traversal

end DesignMetrics
