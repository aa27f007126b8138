import DesignMetrics.Traversal.Walk

/-!
Observers are state machines that are told every event of a walk. Several of them share one walk.
-/

namespace DesignMetrics

/-- A state machine over events, in a state of type `σ`; `φ` says why it refuses an event. -/
class Observer (σ : Type) (φ : outParam Type) where
  name : σ → String
  observe : Registry → Event → σ → Except φ σ

/-- Why a traversal came to no end. -/
inductive TraversalFault (φ : Type) where
  | refused (observer place : String) (cause : φ)
  | broken (fault : WalkFault)

def TraversalFault.message {φ : Type} (wording : φ → String) : TraversalFault φ → String
  | refused observer place cause =>
    s!"analyzer `{observer}` failed at {place}: " ++ wording cause
  | broken fault => fault.message

/-- The observers after a traversal, and its fault if it has one. -/
structure Outcome (σ φ : Type) where
  observers : List σ
  fault : Option (TraversalFault φ)

namespace Traversal

variable {σ φ : Type} [Observer σ φ]

/-- Each event goes to all observers in turn, and the first refusal ends the walk. -/
def tell (r : Registry) (e : Event) : List σ → List σ × Option (String × φ)
  | [] => ([], none)
  | s :: rest =>
    match Observer.observe r e s with
    | .error cause => (s :: rest, some (Observer.name s, cause))
    | .ok s' =>
      let (rest', refusal) := tell r e rest
      (s' :: rest', refusal)

def tellAll (r : Registry) : String → List Event → List σ → Outcome σ φ
  | _, [], observers => ⟨observers, none⟩
  | before, e :: events, observers =>
    let place := e.place before
    match tell r e observers with
    | (observers, some (name, cause)) => ⟨observers, some (.refused name place cause)⟩
    | (observers, none) => tellAll r place events observers

def follow (r : Registry) (walk : Walk) (observers : List σ) : Outcome σ φ :=
  match tellAll r "" walk.events observers with
  | ⟨observers, some fault⟩ => ⟨observers, some fault⟩
  | ⟨observers, none⟩ => ⟨observers, walk.fault.map .broken⟩

end Traversal

end DesignMetrics
