import DesignMetrics.Proofs.Traversal.Depth
import DesignMetrics.Proofs.Traversal.Observers
import DesignMetrics.Traversal.Pass
import DesignMetrics.Traversal.Recorder

/-! One pass for all observers.
An observer cannot tell whether it is alone: nobody refuses an event that it would take alone, and as
long as nobody does, each hears all events. The first refusal ends the pass at once, wherever in the
walk it happens.
-/

namespace DesignMetrics

namespace Traversal

variable {σ φ : Type} [Observer σ φ] {r : Registry}

-- Telling events in the end

def play (r : Registry) (walk : Walk) : Pass σ φ PUnit := do
  walk.events.forM (announce r)
  match walk.fault with
  | some fault => throw (.broken fault)
  | none => return

theorem play_failed (fault : WalkFault)
    : (play r (.failed fault) : Pass σ φ PUnit) = throw (.broken fault) := by
  simp [play, Walk.failed]

theorem play_done : (play r .done : Pass σ φ PUnit) = return := by simp [play, Walk.done]

theorem play_each {α : Type} (walk : α → Walk) (items : List α)
    : (play r (.each walk items) : Pass σ φ PUnit) = items.forM fun a => play r (walk a) := by
  induction items with
  | nil => simp [play, Walk.each, Walk.done]
  | cons a items ih =>
    rw [List.forM_eq_forM, List.forM_cons, ← List.forM_eq_forM, ← ih]
    cases fault : (walk a).fault with
    | some cause => simp [play, Walk.each, fault]
    | none => simp [play, Walk.each, fault]

theorem play_inside (v : Visit) (inner : Walk)
    : (play r (.inside v inner) : Pass σ φ PUnit) = surround r v (play r inner) := by
  cases fault : inner.fault with
  | some cause => simp [play, Walk.inside, surround, fault]
  | none => simp [play, Walk.inside, surround, fault]

section

variable {declared : NodeId → Walk} {declared' : NodeId → Pass σ φ PUnit}
variable (same : ∀ id, declared' id = play r (declared id))

include same

/-- Going through a part plays the walk through it, by induction on its size. -/
theorem passPart_eq (p : Part) : passPart r declared' p = play r (.part r declared p) := by
  have children : play r (.each (fun q : { q // q ∈ p.children } => .part r declared q.1) p.children.attach)
      = (p.children.attach.forM fun q => passPart r declared' q.1 : Pass σ φ PUnit) := by
    rw [play_each]
    congr
    funext q
    have := Part.sizeOf_lt_of_mem_children q.2
    exact (passPart_eq q.1).symm
  cases p with
  | expr e => simp only [passPart, Walk.part, play_inside, children]
  | stmt s => cases s <;> simp only [passPart, Walk.part, play_inside, play_done, children, same]
termination_by sizeOf p

theorem passBody_eq (body : List Stmt) : passBody r declared' body = play r (.stmts r declared body) := by
  rw [Walk.stmts, play_each, passBody]
  simp only [passPart_eq same]

theorem passMember_eq (owner id : NodeId)
    : passMember r declared' owner id = play r (.member r declared owner id) := by
  unfold passMember Walk.member
  cases r.node? id with
  | none => rw [play_failed]
  | some x => cases x <;> simp only [play_inside, play_done, play_failed, passBody_eq same]

end

theorem passDeclaration_eq (n : Nat) (id : NodeId)
    : (passDeclaration r n id : Pass σ φ PUnit) = play r (.declaration r n id) := by
  induction n generalizing id with
  | zero => rw [Walk.declaration, play_failed, passDeclaration]
  | succ n ih =>
    unfold passDeclaration Walk.declaration
    cases r.node? id with
    | none => rw [play_failed]
    | some x =>
      cases x with
      | type t => simp only [play_inside, play_each, funext (passMember_eq ih t.id)]
      | function f => simp only [play_inside, passBody_eq ih]
      | space | method | property => simp only [play_failed]

theorem passUnits_eq (depth : Nat) (units : List CompilationUnit)
    : (units.forM (passUnit r depth) : Pass σ φ PUnit) = play r (.unitsTo r depth units) := by
  rw [Walk.unitsTo, play_each]
  congr
  funext u
  rw [passUnit, Walk.unit, play_inside, passBody_eq (passDeclaration_eq depth)]

theorem outcome_announce (e : Event) (next : Pass σ φ PUnit) (place : String) (observers : List σ)
    : Pass.outcome (announce r e >>= fun _ => next) place observers
      = match tell r e observers with
        | (observers, some (name, cause)) => ⟨observers, some (.refused name (e.place place) cause)⟩
        | (observers, none) => Pass.outcome next (e.place place) observers := by
  have told : Pass.outcome (announce r e >>= fun _ => next) place observers
      = Pass.outcome (stopAt (e.place place) (tell r e observers).2 >>= fun _ => next)
          (e.place place) (tell r e observers).1 := rfl
  rw [told]
  obtain ⟨next', _ | _⟩ := tell r e observers <;> rfl

theorem outcome_play (walk : Walk) (place : String) (observers : List σ)
    : Pass.outcome (play r walk) place observers
      = match tellAll r place walk.events observers with
        | ⟨observers, some fault⟩ => ⟨observers, some fault⟩
        | ⟨observers, none⟩ => ⟨observers, walk.fault.map .broken⟩ := by
  obtain ⟨events, fault⟩ := walk
  induction events generalizing place observers with
  | nil => cases fault <;> rfl
  | cons e events ih =>
    have first : (play r ⟨e :: events, fault⟩ : Pass σ φ PUnit)
        = announce r e >>= fun _ => play r ⟨events, fault⟩ := by
      simp [play]
    rw [first, outcome_announce, tellAll]
    split <;> simp_all

/-- Telling each event when it happens comes to the same as telling all events of the walk. -/
theorem process_eq_follow (depth : Nat) (units : List CompilationUnit) (observers : List σ)
    : process r depth units observers = follow r (.unitsTo r depth units) observers := by
  rw [process, passUnits_eq, outcome_play]
  rfl

-- Refusals

theorem observeAll_append (events more : List Event) (s : σ)
    : observeAll r (events ++ more) s = (observeAll r events s).bind (observeAll r more) := by
  induction events generalizing s with
  | nil => rfl
  | cons e events ih =>
    simp only [List.cons_append, observeAll]
    cases Observer.observe r e s with
    | error => rfl
    | ok next => exact ih next

variable {events : List Event}

/-- What comes after events that nobody refuses is told to the observers as they are then. -/
theorem tellAll_append {before : String} {observers : List σ}
    (fine : (tellAll r before events observers).fault = none) (more : List Event)
    : tellAll r before (events ++ more) observers
      = tellAll r (events.foldl (fun place e => e.place place) before) more
          (tellAll r before events observers).observers := by
  induction events generalizing before observers with
  | nil => rfl
  | cons e events ih =>
    rw [List.cons_append, tellAll]
    rw [tellAll] at fine ⊢
    split
    · rename_i told
      simp [told] at fine
    · rename_i told
      simp only [told] at fine ⊢
      exact ih fine

/-- An event is told to the observers in front of the one that refuses it, and to no other. -/
theorem tell_refused {e : Event} {front : List σ} {s : σ} {cause : φ}
    (taken : (tell r e front).2 = none) (refused : Observer.observe r e s = .error cause)
    (back : List σ)
    : tell r e (front ++ s :: back)
      = ((tell r e front).1 ++ s :: back, some (Observer.name s, cause)) := by
  induction front with
  | nil => simp [tell, refused]
  | cons t front ih =>
    cases step : Observer.observe r e t with
    | error => simp [tell, step] at taken
    | ok next =>
      simp only [tell, step] at taken
      simp [tell, step, ih taken]

/-- Whether an observer, told the events alone, takes those before the one at `n` and refuses that
one.
-/
def Refuses (r : Registry) (events : List Event) (s : σ) (n : Nat) : Prop :=
  (∃ t, observeAll r (events.take n) s = .ok t)
    ∧ ∃ cause, observeAll r (events.take (n + 1)) s = .error cause

/-- The observer at `k`, in the state `s`, refuses the event at `n` on its own, nobody refuses an
earlier one, and nobody in front of it refuses the same one.
-/
structure FirstRefusal (r : Registry) (events : List Event) (observers : List σ) (n k : Nat) (s : σ)
    : Prop where
  there : observers[k]? = some s
  refuses : Refuses r events s n
  first {i m : Nat} {t : σ} : observers[i]? = some t → Refuses r events t m → n < m ∨ n = m ∧ k ≤ i

/-- An observer takes everything before the first event that it refuses. -/
theorem takes_of_not_refuses {s : σ} {n : Nat} (never : ∀ m < n, ¬ Refuses r events s m)
    : ∃ t, observeAll r (events.take n) s = .ok t := by
  induction n with
  | zero => exact ⟨s, rfl⟩
  | succ n ih =>
    have before := ih fun m less => never m (by omega)
    cases next : observeAll r (events.take (n + 1)) s with
    | ok t => exact ⟨t, rfl⟩
    | error cause => exact absurd ⟨before, cause, next⟩ (never n (by omega))

/-- An observer that refuses the event at `n` is told one there. -/
theorem Refuses.event {s : σ} {n : Nat} (h : Refuses r events s n)
    : ∃ e t cause, events[n]? = some e ∧ observeAll r (events.take n) s = .ok t
      ∧ Observer.observe r e t = .error cause := by
  obtain ⟨⟨t, before⟩, cause, refused⟩ := h
  cases found : events[n]? with
  | none =>
    have same : events.take (n + 1) = events.take n := by
      have := List.getElem?_eq_none_iff.mp found
      rw [List.take_of_length_le (by omega), List.take_of_length_le (by omega)]
    simp [same, before] at refused
  | some e =>
    refine ⟨e, t, cause, rfl, before, ?_⟩
    rw [List.take_add_one, found, Option.toList_some, observeAll_append, before] at refused
    cases step : Observer.observe r e t with
    | error other => simpa [Except.bind, observeAll, step] using refused
    | ok next => simp [Except.bind, observeAll, step] at refused

/-- One event more. -/
theorem observeAll_concat (events : List Event) (e : Event) (s : σ)
    : observeAll r (events ++ [e]) s = (observeAll r events s).bind (Observer.observe r e) := by
  rw [observeAll_append]
  congr
  funext t
  cases step : Observer.observe r e t <;> simp [observeAll, step, Except.bind]

section

variable {observers : List σ} {n k : Nat} {s : σ}

/-- Nobody refuses an event before the one at `n`. -/
theorem FirstRefusal.quiet (h : FirstRefusal r events observers n k s) (before : String)
    : (tellAll r before (events.take n) observers).fault = none := by
  refine (tellAll_fault_iff before).mpr fun u member => takes_of_not_refuses fun m less refuses => ?_
  obtain ⟨i, found⟩ := List.getElem?_of_mem member
  have := h.first found refuses
  omega

/-- Everyone in front of the one that refuses takes the event at `n`, too. -/
theorem FirstRefusal.front (h : FirstRefusal r events observers n k s) {u : σ}
    (member : u ∈ observers.take k) : ∃ t, observeAll r (events.take (n + 1)) u = .ok t := by
  refine takes_of_not_refuses fun m less refuses => ?_
  obtain ⟨i, found⟩ := List.getElem?_of_mem member
  rw [List.getElem?_take] at found
  split at found
  · have := h.first found refuses
    omega
  · simp at found

/-- After the first refusal the observers in front of the one that refuses have taken one event more
than the others, and the fault is its own.
-/
theorem FirstRefusal.tellAll_eq (h : FirstRefusal r events observers n k s) (before : String)
    : (tellAll r before events observers).observers.map .ok
        = (observers.take k).map (observeAll r (events.take (n + 1)))
          ++ (observers.drop k).map (observeAll r (events.take n))
      ∧ ∃ e t place cause, events[n]? = some e ∧ observeAll r (events.take n) s = .ok t
        ∧ Observer.observe r e t = .error cause
        ∧ (tellAll r before events observers).fault
          = some (.refused (Observer.name t) place cause) := by
  obtain ⟨e, t, cause, there, state, refused⟩ := h.refuses.event
  have upTo : events.take (n + 1) = events.take n ++ [e] := by
    rw [List.take_add_one, there, Option.toList_some]
  have events_eq : events = events.take n ++ e :: events.drop (n + 1) := by
    obtain ⟨less, rfl⟩ := List.getElem?_eq_some_iff.mp there
    rw [List.getElem_cons_drop, List.take_append_drop]
  -- the observers when the event at `n` comes
  have states := tellAll_states before (h.quiet before)
  have after := tellAll_append (h.quiet before) (e :: events.drop (n + 1))
  rw [← events_eq] at after
  generalize (tellAll r before (events.take n) observers).observers = now at states after
  have front : (now.take k).map Except.ok = (observers.take k).map (observeAll r (events.take n)) := by
    rw [List.map_take, states, List.map_take]
  have back : (now.drop k).map Except.ok = (observers.drop k).map (observeAll r (events.take n)) := by
    rw [List.map_drop, states, List.map_drop]
  have rest : now.drop k = t :: now.drop (k + 1) := by
    have here : now[k]? = some t := by
      have := congrArg (·[k]?) states
      simpa [h.there, state] using this
    obtain ⟨less, rfl⟩ := List.getElem?_eq_some_iff.mp here
    rw [List.getElem_cons_drop]
  have taken : (tell r e (now.take k)).2 = none := by
    refine tell_refusal_iff.mpr fun u' member => ?_
    obtain ⟨u, earlier, eq⟩ := List.mem_map.mp (front ▸ List.mem_map_of_mem member)
    obtain ⟨next, done⟩ := h.front earlier
    rw [upTo, observeAll_concat, eq] at done
    exact ⟨next, done⟩
  have told := tell_refused taken refused (now.drop (k + 1))
  rw [← rest, List.take_append_drop] at told
  rw [after, tellAll, told]
  refine ⟨?_, e, t, _, cause, there, state, refused, rfl⟩
  have more : (now.take k).map (Observer.observe r e)
      = ((now.take k).map Except.ok).map (·.bind (Observer.observe r e)) := by
    rw [List.map_map]
    rfl
  have concat : (observeAll r (events.take (n + 1)) : σ → Except φ σ)
      = (·.bind (Observer.observe r e)) ∘ observeAll r (events.take n) := by
    funext u
    rw [upTo, observeAll_concat, Function.comp_apply]
  rw [List.map_append, tell_states taken, more, front, back, List.map_map, ← concat]

end

-- What an observer hears alone

/-- Refuses nothing, and keeps what it hears. -/
structure Listener where
  heard : List Event := []

instance : Observer Listener Empty where
  name _ := "listener"
  observe _ e s := .ok ⟨s.heard ++ [e]⟩

def heardAlone (r : Registry) (depth : Nat) (units : List CompilationUnit) : List Event :=
  (process r depth units [({} : Listener)]).observers.flatMap Listener.heard

theorem observeAll_listener (events : List Event) (s : Listener)
    : observeAll r events s = .ok ⟨s.heard ++ events⟩ := by
  induction events generalizing s with
  | nil => simp [observeAll]
  | cons e events ih => simp [observeAll, Observer.observe, Except.bind, ih]

theorem heardAlone_eq (r : Registry) (depth : Nat) (units : List CompilationUnit)
    : heardAlone r depth units = (Walk.unitsTo r depth units).events := by
  have quiet : (tellAll r "" (Walk.unitsTo r depth units).events [({} : Listener)]).fault = none :=
    (tellAll_fault_iff "").mpr fun s _ => ⟨_, observeAll_listener _ s⟩
  have states := tellAll_states "" quiet
  rw [heardAlone, process_eq_follow, follow_eq]
  simp only [List.map_cons, observeAll_listener, List.map_nil] at states
  obtain ⟨s, told, same⟩ := List.map_eq_singleton_iff.mp states
  simpa [told] using congrArg Listener.heard (Except.ok.inj same)

end Traversal

open Traversal in
/-- Sharing a pass cannot be observed, and a refusal ends it at once. Telling each event when it
happens comes to the same as telling the events of the walk in the end. If nobody refuses an event,
each observer ends in the state in which it ends alone. Otherwise those in front of the one that is
the first to refuse an event have heard everything up to this event, it and those behind it everything
before, and the fault has its name and its cause.
-/
theorem shared_pass_unobservable {σ φ : Type} [Observer σ φ] (r : Registry)
    (units : List CompilationUnit) (depth : Nat) (ends : (Walk.unitsTo r depth units).Ends)
    (observers : List σ)
    : let events := heardAlone r depth units
      let outcome := follow r (Walk.units r units) observers
      process r depth units observers = outcome
      ∧ ((∀ s ∈ observers, ∃ t, observeAll r events s = .ok t)
        → outcome.observers.map .ok = observers.map (observeAll r events)
          ∧ outcome.fault = (Walk.units r units).fault.map .broken)
      ∧ ∀ n k s, FirstRefusal r events observers n k s
        → outcome.observers.map .ok
            = (observers.take k).map (observeAll r (events.take (n + 1)))
              ++ (observers.drop k).map (observeAll r (events.take n))
          ∧ ∃ e t place cause, events[n]? = some e ∧ observeAll r (events.take n) s = .ok t
            ∧ Observer.observe r e t = .error cause
            ∧ outcome.fault = some (.refused (Observer.name t) place cause) := by
  have whole : Walk.units r units = Walk.unitsTo r depth units := (Walk.kept_size depth).unitsTo ends
  rw [process_eq_follow, heardAlone_eq, whole]
  refine ⟨rfl, fun never => ?_, fun n k s first => ?_⟩
  · have quiet := (tellAll_fault_iff "").mpr never
    rw [follow_eq, quiet]
    exact ⟨tellAll_states "" quiet, rfl⟩
  · obtain ⟨states, e, t, place, cause, there, before, refused, fault⟩ := first.tellAll_eq ""
    rw [follow_eq, fault]
    exact ⟨states, e, t, place, cause, there, before, refused, rfl⟩

def printing : CompilationUnit := ⟨"a.php", "", [.echo [.literal "1"]], [], []⟩

open Traversal in
/-- Of three recorders the second refuses the statement: the first has written it down, the third has
not heard of it.
-/
theorem shared_pass_threeRecorders
    : let second : Recorder := ⟨"second", some 1, 0, []⟩
      let recorders : List Recorder := [⟨"first", none, 0, []⟩, second, ⟨"third", none, 0, []⟩]
      let outcome := follow ∅ (Walk.units ∅ [printing]) recorders
      (Walk.unitsTo ∅ 0 [printing]).Ends
      ∧ FirstRefusal ∅ (heardAlone ∅ 0 [printing]) recorders 1 1 second
      ∧ outcome.observers.map Recorder.log
        = [["+unit a.php#u", "+stmt Echo"], ["+unit a.php#u"], ["+unit a.php#u"]]
      ∧ ∃ place cause, outcome.fault = some (.refused "second" place cause) := by
  intro second recorders outcome
  have ends : (Walk.unitsTo ∅ 0 [printing]).Ends := by
    have fine : (Walk.unitsTo ∅ 0 [printing]).fault = none := by decide +kernel
    simp [Walk.Ends, fine]
  have heard : heardAlone ∅ 0 [printing]
      = [.enter (.unit printing), .enter (.stmt (.echo [.literal "1"])), .enter (.expr (.literal "1")),
        .leave (.expr (.literal "1")), .leave (.stmt (.echo [.literal "1"])), .leave (.unit printing)] := by
    simp [heardAlone_eq, printing, Walk.unitsTo, Walk.unit, Walk.stmts, Walk.each, Walk.part_eq,
      Part.marker?, Part.visit?, Part.children, Stmt.parts, Expr.parts, Part.exprs, Walk.inside,
      Walk.done]
  have first : FirstRefusal ∅ (heardAlone ∅ 0 [printing]) recorders 1 1 second := by
    rw [heard]
    refine ⟨rfl, ⟨⟨_, rfl⟩, _, rfl⟩, fun {i m t} found refuses => ?_⟩
    obtain ⟨_, cause, refused⟩ := refuses
    rcases i with _ | _ | _ | i <;> rcases m with _ | _ | m
    case zero.zero | succ.zero.zero | succ.succ.zero.zero | zero.succ.zero =>
      obtain rfl := Option.some.inj found
      cases refused
    case succ.succ.succ.zero => simp [recorders] at found
    all_goals omega
  obtain ⟨states, e, t, place, cause, _, before, _, fault⟩ :=
    (shared_pass_unobservable ∅ [printing] 0 ends recorders).2.2 1 1 second first
  refine ⟨ends, first, ?_, place, cause, ?_⟩
  · rw [heard] at states
    have logs := congrArg (List.map fun s => (s.toOption.map Recorder.log).getD []) states
    rw [List.map_map] at logs
    exact logs
  · rw [heard] at before
    cases before
    exact fault

end DesignMetrics
