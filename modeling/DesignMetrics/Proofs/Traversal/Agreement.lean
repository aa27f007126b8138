import DesignMetrics.Proofs.Registry.Agreement
import DesignMetrics.Proofs.Traversal.Seen
import DesignMetrics.Proofs.Traversal.Observers

/-! Walks through registries that agree.
Two walks through the same units meet the same nodes in the same order, and observers of the two that
stay related event by event are related in the end.
-/

namespace DesignMetrics

def Event.map (f : Visit → Visit) : Event → Event
  | .enter v => .enter (f v)
  | .leave v => .leave (f v)

def Walk.map (f : Visit → Visit) (w : Walk) : Walk := ⟨w.events.map (Event.map f), w.fault⟩

theorem Walk.map_eq_seen (f : Visit → Visit) (w : Walk) : w.map f = w.seen fun v => some (f v) := by
  have every : (Event.seen? fun v => some (f v)) = some ∘ Event.map f := by
    funext e
    cases e <;> rfl
  rw [map, seen, every, List.filterMap_eq_map]

def Visit.bare : Visit → Visit
  | .space n => .space n.bare
  | .type t => .type t.bare
  | .method m => .method { m with cached := false }
  | .function f => .function { f with cached := false }
  | .property p => .property { p with cached := false }
  | v => v

def Event.bare : Event → Event
  | .enter v => .enter v.bare
  | .leave v => .leave v.bare

namespace Walk

def bare (w : Walk) : Walk := ⟨w.events.map Event.bare, w.fault⟩

theorem bare_eq_seen (w : Walk) : w.bare = w.seen fun v => some v.bare := by
  have events : Event.bare = Event.map Visit.bare := funext fun e => by cases e <;> rfl
  rw [← map_eq_seen, bare, map, events]

end Walk

theorem Node.SeenAlike.of_bare {n n' : Node} (same : n.bare = n'.bare)
    : SeenAlike (fun v => some v.bare) Eq n n' := by
  cases n <;> cases n' <;> simp only [Node.withCached, reduceCtorEq] at same
  case space.space n n' => exact .space n n'
  case type.type =>
    obtain ⟨cached, rfl⟩ := TypeNode.eq_of_bare (Node.type.inj same)
    exact .type rfl rfl rfl
  case method.method m m' =>
    have fields := Node.method.inj same
    have body : m.body = m'.body := (congrArg MethodNode.body fields.symm).symm
    exact .method (by simp only [Visit.bare, fields]) (by rw [body])
  case function.function f f' =>
    have fields := Node.function.inj same
    have body : f.body = f'.body := (congrArg FunctionNode.body fields.symm).symm
    exact .function (by simp only [Visit.bare, fields]) body
  case property.property =>
    have fields := Node.property.inj same
    exact .property (by simp only [Visit.bare, fields])

/-- Walks through the same units are the same up to marks. -/
theorem Walk.bare_units {r r' : Registry} (h : r.Agree r') (us : List CompilationUnit)
    : (units r us).bare = (units r' us).bare := by
  have visits (p : Part)
      : (p.visit? r).map (fun v => some v.bare) = (p.visit? r').map fun v => some v.bare := by
    unfold Part.visit?
    split <;> simp [Visit.bare, h.namespaceNamed]
  have alike : r.SeenAlike (fun v => some v.bare) Eq r' :=
    ⟨h.size, fun id => Node.rel_of_map (fun _ _ => .of_bare) (h.node? id), seen_stmts_of_visits visits⟩
  rw [bare_eq_seen, bare_eq_seen]
  exact seen_units alike (List.forall₂_same.mpr fun u _ => ⟨rfl, rfl⟩)

/-- Steps that end alike: in related states, or for the same reason. -/
inductive Alongside {σ σ' φ : Type} (related : σ → σ' → Prop) : Except φ σ → Except φ σ' → Prop
  | ok {s : σ} {s' : σ'} : related s s' → Alongside related (.ok s) (.ok s')
  | error (cause : φ) : Alongside related (.error cause) (.error cause)

theorem Event.place_eq {e e' : Event} (same : e.bare = e'.bare) (before : String)
    : e.place before = e'.place before := by
  have bare (e : Event) : e.bare.place before = e.place before := by
    cases e with
    | enter v | leave v => cases v <;> rfl
  rw [← bare e, same, bare e']

namespace Traversal

open List (Forall₂)

variable {σ σ' φ : Type} [Observer σ φ] [Observer σ' φ]

/-- A relation between observers of two walks, and the events still to come, that events keep. -/
structure Simulates (r r' : Registry) (R : List Event → σ → σ' → Prop) : Prop where
  named {events : List Event} {s : σ} {s' : σ'} (related : R events s s')
    : Observer.name s = Observer.name s'
  step {e e' : Event} {events : List Event} {s : σ} {s' : σ'} (related : R (e.bare :: events) s s')
      (same : e.bare = e'.bare)
    : Alongside (R events) (Observer.observe r e s) (Observer.observe r' e' s')

variable {r r' : Registry} {R : List Event → σ → σ' → Prop} (sim : Simulates r r' R)

include sim

variable {observers' : List σ'} {observers : List σ}

/-- Observers that are related before an event take or refuse it alike. -/
theorem tell_alongside {e e' : Event} (same : e.bare = e'.bare) {events : List Event}
    (h : Forall₂ (R (e.bare :: events)) observers observers')
    : (tell r e observers).2 = (tell r' e' observers').2
      ∧ ((tell r e observers).2 = none
        → Forall₂ (R events) (tell r e observers).1 (tell r' e' observers').1)
      ∧ Forall₂ (fun s s' => ∃ events, R events s s') (tell r e observers).1
          (tell r' e' observers').1 := by
  induction h with
  | nil => exact ⟨rfl, fun _ => .nil, .nil⟩
  | @cons s s' rest rest' related others ih =>
    have outcome := sim.step related same
    have names := sim.named related
    unfold tell
    generalize Observer.observe r e s = first at outcome
    generalize Observer.observe r' e' s' = second at outcome
    cases outcome with
    | ok next =>
      obtain ⟨refusals, states, mixed⟩ := ih
      exact ⟨refusals, fun fine => .cons next (states fine), .cons ⟨_, next⟩ mixed⟩
    | error cause =>
      refine ⟨by rw [names], by simp, .cons ⟨_, related⟩ (others.imp fun _ _ rest => ⟨_, rest⟩)⟩

/-- Observers that are related before events are related after them, and the first refusal is the
same. -/
theorem tellAll_alongside {events events' : List Event}
    (same : events.map Event.bare = events'.map Event.bare) (before : String)
    (h : Forall₂ (R (events.map Event.bare)) observers observers')
    : (tellAll r before events observers).fault = (tellAll r' before events' observers').fault
      ∧ Forall₂ (fun s s' => ∃ events, R events s s') (tellAll r before events observers).observers
          (tellAll r' before events' observers').observers := by
  induction events generalizing events' before observers observers' with
  | nil =>
    obtain rfl : events' = [] := by simpa using same.symm
    exact ⟨rfl, h.imp fun _ _ related => ⟨_, related⟩⟩
  | cons e events ih =>
    cases events' with
    | nil => simp at same
    | cons e' events' =>
      obtain ⟨here, later⟩ : e.bare = e'.bare ∧ events.map Event.bare = events'.map Event.bare := by
        simpa using same
      obtain ⟨refusals, states, mixed⟩ := tell_alongside sim here h
      unfold tellAll
      rw [Event.place_eq here]
      generalize tell r e observers = first at refusals states mixed
      generalize tell r' e' observers' = second at refusals states mixed
      obtain ⟨next, refusal⟩ := first
      obtain ⟨next', refusal'⟩ := second
      obtain rfl : refusal = refusal' := refusals
      cases refusal with
      | none => exact ih later _ (states rfl)
      | some refusal => exact ⟨rfl, mixed⟩

/-- Traversals of walks that are the same up to marks end alike. -/
theorem follow_alongside {walk walk' : Walk} (same : walk.bare = walk'.bare)
    (h : Forall₂ (R (walk.events.map Event.bare)) observers observers')
    : (follow r walk observers).fault = (follow r' walk' observers').fault
      ∧ Forall₂ (fun s s' => ∃ events, R events s s') (follow r walk observers).observers
          (follow r' walk' observers').observers := by
  obtain ⟨events, fault⟩ := Walk.mk.inj same
  obtain ⟨faults, states⟩ := tellAll_alongside sim events "" h
  rw [follow_eq, follow_eq, faults, fault]
  exact ⟨rfl, states⟩

end Traversal

end DesignMetrics
