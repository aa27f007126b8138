import DesignMetrics.Proofs.Cache.Faithful
import DesignMetrics.Proofs.Metric.SameTypes
import DesignMetrics.Proofs.Metric.Tally
import DesignMetrics.Proofs.Syntax.Recovery
import DesignMetrics.Run

/-! Complexities that come from a cache.
A record that is restored is the one that counting would have come to, so what has been restored and
what has been counted cannot be told apart once a callable is left.
-/

namespace DesignMetrics

open Json List

namespace ComplexityRecord

def payload (r : ComplexityRecord) : ByteArray := r.toJson.compact.toUTF8

/-- Nothing but the record is read from its payload. -/
theorem only_stored {r r' : ComplexityRecord} (h : (parseStored? r.payload).bind ofJson? = some r')
    : r' = r := by
  have natural : r.toJson.isNatural := by simp [toJson, ofNat, isNatural, isMadeOf, fieldsMadeOf]
  obtain ⟨j, parsed, dimmed⟩ := exists_parseStored? natural
  rw [payload, parsed] at h
  have reading : ReadsBack r (j = r.toJson) (r.ccn < 2 ^ 64 ∧ r.ccn2 < 2 ^ 64 ∧ True)
      (ofJson? j) := by
    refine dimmed.fieldByField rfl (by decide) ?_
    rintro _ (_ | ⟨ccn, _ | ⟨ccn2, _ | _⟩⟩)
    exact .bind (reading_natBelow ccn) (.bind (reading_natBelow ccn2) (.same _))
  exact (reading.only r' h).1

end ComplexityRecord

def Settles (entry : CacheKey → ByteArray → Prop) (v : Visit) : Prop :=
  ∀ callable body, Callable.ofVisit? v = some callable → v.body? = some body
    → ∀ payload, entry callable.cacheKey payload ↔ payload = (ComplexityRecord.ofBody body).payload

/-- Whether a frame has the record of an open callable, so far or, if it was restored, in full. -/
structure Mirrors (entry : CacheKey → ByteArray → Prop) (o : OpenCallable) (f : ComplexityFrame)
    : Prop where
  settled : Settles entry o.1
  named : ∃ callable, Callable.ofVisit? o.1 = some callable ∧ f.id = callable.id
    ∧ f.key = callable.cacheKey
  counted : ∃ body, o.1.body? = some body ∧ f.record = if f.restored then .ofBody body else o.2

variable {events : List Event}

section

variable {κ : Type} [CacheStore κ] {entry : CacheKey → ByteArray → Prop} {start : κ}

/-- Whether an analyzer has the frames of the open callables, and a cache with entries only. -/
structure Keeps (entry : CacheKey → ByteArray → Prop) (start : κ) (frames : List OpenCallable)
    (c : Complexity κ) : Prop where
  cache : Holds entry start c.cache
  frames : Forall₂ (Mirrors entry) frames c.frames

def Event.result? : Event → Option (NodeId × ComplexityRecord)
  | .enter _ => none
  | .leave v => do return ((← Callable.ofVisit? v).id, .ofBody (← v.body?))

theorem Visit.ofVisit?_bare (v : Visit)
    : Callable.ofVisit? v.bare = (Callable.ofVisit? v).map fun c => { c with cached := false } := by
  cases v <;> rfl

theorem Node.visit_bare (n : Node) : n.visit.bare = n.bare.visit := by
  cases n <;> rfl

/-- A callable that is registered is a node. -/
theorem Visit.Registered.exists_node {r : Registry} {v : Visit} (h : v.Registered r)
    {callable : Callable} (named : Callable.ofVisit? v = some callable)
    : ∃ n ∈ r.toList, n.visit = v := by
  cases v with
  | method m => exact ⟨.method m, h _ rfl, rfl⟩
  | function f => exact ⟨.function f, h _ rfl, rfl⟩
  | _ => simp [Callable.ofVisit?] at named

@[simp] theorem Visit.body?_bare (v : Visit) : v.bare.body? = v.body? := by
  cases v <;> rfl

@[simp] theorem Visit.ofVisit_bare (v : Visit)
    : ComplexityRecord.ofVisit v.bare = ComplexityRecord.ofVisit v := by
  cases v <;> rfl

/-- Exactly the callables have a body. -/
theorem Visit.callable_cases (v : Visit)
    : (∃ callable body, Callable.ofVisit? v = some callable ∧ v.body? = some body)
      ∨ Callable.ofVisit? v = none ∧ v.body? = none := by
  cases v with
  | method m => exact .inl ⟨_, _, rfl, rfl⟩
  | function f => exact .inl ⟨_, _, rfl, rfl⟩
  | _ => exact .inr ⟨rfl, rfl⟩

/-- What holds of all that a walk enters, whatever the marks, holds without them. -/
theorem Walk.Visits.enter_bare {P : Visit → Prop} {w : Walk} (h : w.Visits fun v => P v.bare)
    (v : Visit) (entered : .enter v ∈ w.events.map Event.bare) : P v := by
  obtain ⟨e, there, same⟩ := List.mem_map.mp entered
  cases e with
  | enter u =>
    obtain rfl : u.bare = v := by simpa [Event.bare] using same
    exact h u there
  | leave u => simp [Event.bare] at same

/-- Marks do not matter to what is counted. -/
theorem Tallied.bare {frames : List OpenCallable} (h : Tallied frames events)
    : Tallied (frames.map fun o => (o.1.bare, o.2)) (events.map Event.bare) := by
  induction events generalizing frames with
  | nil => trivial
  | cons e events ih =>
    obtain ⟨complete, rest⟩ := h
    have step : (stepOpen frames e).map (fun o => (o.1.bare, o.2))
        = stepOpen (frames.map fun o => (o.1.bare, o.2)) e.bare := by
      cases e with
      | enter v =>
        simp only [stepOpen, Event.bare, Visit.body?_bare, Visit.ofVisit_bare]
        split
        · rfl
        · cases frames <;> rfl
      | leave v =>
        simp only [stepOpen, Event.bare, Visit.body?_bare]
        split <;> simp
    refine ⟨?_, step ▸ ih rest⟩
    cases e with
    | enter v => trivial
    | leave v =>
      intro body code
      rw [List.head?_map, complete body (by simpa using code)]
      rfl

namespace Complexity

variable {frames : List OpenCallable} {c : Complexity κ}

def results (c : Complexity κ) : Std.TreeMap NodeId ComplexityRecord × ComplexityRecord :=
  (c.records, c.total)

def addResult (results : Std.TreeMap NodeId ComplexityRecord × ComplexityRecord)
    : Option (NodeId × ComplexityRecord) → Std.TreeMap NodeId ComplexityRecord × ComplexityRecord
  | none => results
  | some (id, record) => (results.1.insert id record, results.2.add record)

/-- A callable that is entered has a frame, with a record in full if one was found. -/
theorem keeps_enterCallable (faithful : Faithful start) (h : Keeps entry start frames c) {v : Visit}
    (settled : Settles entry v.bare) {callable : Callable} (named : Callable.ofVisit? v = some callable)
    {body : List Stmt} (code : v.body? = some body)
    : Keeps entry start ((v.bare, ⟨1, 1⟩) :: frames) (c.enterCallable callable)
      ∧ (c.enterCallable callable).results = c.results := by
  have bare : Callable.ofVisit? v.bare = some { callable with cached := false } := by
    rw [Visit.ofVisit?_bare, named]
    rfl
  have only := settled _ body bare (by simp [code])
  obtain ⟨kept, found⟩ : Holds entry start ((restored callable).run c.cache).2
      ∧ ∀ record, ((restored callable).run c.cache).1 = some record → record = .ofBody body := by
    unfold restored
    split
    · obtain ⟨kept, read⟩ := h.cache.restoreAs faithful ComplexityRecord.ofJson? callable.cacheKey
      refine ⟨kept, fun record same => ?_⟩
      obtain ⟨payload, stored, value⟩ := read record same
      obtain rfl := (only payload).mp stored
      exact ComplexityRecord.only_stored value
    · exact ⟨h.cache, by simp⟩
  unfold enterCallable
  generalize (restored callable).run c.cache = outcome at kept found
  obtain ⟨record, cache⟩ := outcome
  refine ⟨⟨kept, .cons ⟨settled, ⟨_, bare, rfl, rfl⟩, body, by simp [code], ?_⟩ h.frames⟩, rfl⟩
  cases record with
  | none => rfl
  | some record => exact found record rfl

theorem keeps_addRecord (h : Keeps entry start frames c) (more : ComplexityRecord)
    : Keeps entry start (addOpen more frames) (c.addRecord more)
      ∧ (c.addRecord more).results = c.results := by
  obtain ⟨cache, open_⟩ := h
  unfold addRecord
  generalize split : c.frames = fs at open_
  cases open_ with
  | nil =>
    refine ⟨⟨cache, ?_⟩, rfl⟩
    simp only [split]
    exact .nil
  | @cons o f rest rest' first others =>
    obtain ⟨settled, named, body, code, record⟩ := first
    simp only
    split
    · rename_i full
      refine ⟨⟨cache, ?_⟩, rfl⟩
      rw [split]
      refine .cons ⟨settled, named, body, code, ?_⟩ others
      simpa [full] using record
    · rename_i partly
      refine ⟨⟨cache, .cons ⟨settled, named, body, code, ?_⟩ others⟩, rfl⟩
      simp [partly] at record ⊢
      rw [record]

/-- A callable that is left has its record in full, and so has the cache. -/
theorem keeps_leaveCallable {o : OpenCallable} (h : Keeps entry start (o :: frames) c)
    {callable : Callable} (named : Callable.ofVisit? o.1 = some callable) {body : List Stmt}
    (code : o.1.body? = some body) (full : o.2 = .ofBody body)
    : Keeps entry start frames c.leaveCallable
      ∧ c.leaveCallable.results = addResult c.results (some (callable.id, .ofBody body)) := by
  obtain ⟨cache, open_⟩ := h
  unfold leaveCallable
  generalize split : c.frames = fs at open_
  cases open_ with
  | @cons _ f _ rest first others =>
    obtain ⟨settled, ⟨callable', named', id, key⟩, body', code', record⟩ := first
    obtain rfl : callable = callable' := Option.some.inj (named.symm.trans named')
    obtain rfl : body = body' := Option.some.inj (code.symm.trans code')
    have record : f.record = .ofBody body := by
      rw [record, full]
      split <;> rfl
    have stored : entry f.key f.record.toJson.compact.toUTF8 := by
      rw [key, record]
      exact (settled callable body named code _).mpr rfl
    refine ⟨⟨?_, others⟩, ?_⟩
    · simp only
      split
      · exact cache
      · exact cache.storeJson stored
    · simp [results, addResult, id, record]

/-- An event keeps the frames of the open callables, and a callable that it leaves has its result. -/
theorem keeps_observe (faithful : Faithful start) (h : Keeps entry start frames c) {e : Event}
    (complete : Complete frames e.bare) (settled : ∀ v, e.bare = .enter v → Settles entry v)
    : Keeps entry start (stepOpen frames e.bare) (c.observe e)
      ∧ (c.observe e).results = addResult c.results e.bare.result? := by
  cases e with
  | enter v =>
    rcases v.callable_cases with ⟨callable, body, named, code⟩ | ⟨named, code⟩
    · simpa [observe, named, stepOpen, code, Event.bare, Event.result?, addResult]
        using keeps_enterCallable faithful h (settled v.bare rfl) named code
    · simpa [observe, named, stepOpen, code, Event.bare, Event.result?, addResult]
        using keeps_addRecord h (.ofVisit v)
  | leave v =>
    rcases v.bare.callable_cases with ⟨callable, body, named, code⟩ | ⟨named, code⟩
    · obtain ⟨rest, rfl⟩ := List.head?_eq_some_iff.mp (complete body code)
      have found : (Callable.ofVisit? v).isSome := by
        have bare := v.ofVisit?_bare
        rw [named] at bare
        cases own : Callable.ofVisit? v <;> simp [own] at bare ⊢
      have left := keeps_leaveCallable h named code rfl
      simpa [observe, found, stepOpen, Event.bare, Event.result?, named, code] using left
    · have none : Callable.ofVisit? v = none := by
        have bare := v.ofVisit?_bare
        rw [named] at bare
        simpa using bare.symm
      have results : c.results = addResult c.results (Event.leave v.bare).result? := by
        simp [Event.result?, named, addResult]
      simpa [observe, none, stepOpen, code, Event.bare] using ⟨h, results⟩

end Complexity

end

section

variable {κ κ' : Type} [CacheStore κ] [CacheStore κ'] {entry : CacheKey → ByteArray → Prop}
variable {start : κ} {start' : κ'}

/-- Analyzers that have come to the same results, whatever they have found in their caches. -/
structure Complexity.Same (entry : CacheKey → ByteArray → Prop) (start : κ) (start' : κ')
    (events : List Event) (c : Complexity κ) (c' : Complexity κ') : Prop where
  settled : ∀ v, .enter v ∈ events → Settles entry v
  counted : ∃ frames, Tallied frames events ∧ Keeps entry start frames c
    ∧ Keeps entry start' frames c'
  results : c.results = c'.results

theorem Complexity.Same.step (faithful : Faithful start) (faithful' : Faithful start')
    {e e' : Event} {c : Complexity κ} {c' : Complexity κ'}
    (h : Same entry start start' (e.bare :: events) c c') (same : e.bare = e'.bare)
    : Same entry start start' events (c.observe e) (c'.observe e') := by
  obtain ⟨frames, ⟨complete, tallied⟩, left, right⟩ := h.counted
  have settled : ∀ v, e.bare = .enter v → Settles entry v :=
    fun v entered => h.settled v (entered ▸ List.mem_cons_self)
  obtain ⟨kept, results⟩ := keeps_observe faithful left complete settled
  obtain ⟨kept', results'⟩ := keeps_observe faithful' right (same ▸ complete) (same ▸ settled)
  refine ⟨fun v member => h.settled v (List.mem_cons_of_mem _ member),
    ⟨_, tallied, kept, same ▸ kept'⟩, ?_⟩
  rw [results, results', h.results, same]

/-- Analyzers in the same state, apart from those of complexity, which are related as given. -/
inductive Analyzer.Same (related : List Event → Complexity κ → Complexity κ' → Prop)
    (events : List Event) : Analyzer κ → Analyzer κ' → Prop
  | coupling (s : Coupling) : Same related events (.coupling s) (.coupling s)
  | nodeCount (s : NodeCount) : Same related events (.nodeCount s) (.nodeCount s)
  | dependency (s : Dependency) : Same related events (.dependency s) (.dependency s)
  | complexity {c : Complexity κ} {c' : Complexity κ'}
    : related events c c' → Same related events (.complexity c) (.complexity c')

namespace Analyzer

variable {related : List Event → Complexity κ → Complexity κ' → Prop} {r' r : Registry}

/-- Analyzers in the same state stay so through walks that are the same up to marks. -/
theorem simulates (agree : r.Agree r')
    (counting : ∀ {e e' : Event} {events : List Event} {c : Complexity κ} {c' : Complexity κ'},
      related (e.bare :: events) c c' → e.bare = e'.bare → related events (c.observe e) (c'.observe e'))
    : Traversal.Simulates r r' (Same related) where
  named related := by cases related <;> rfl
  step {e e' events s s'} related same := by
    cases related with
    | coupling s =>
      have next := Coupling.observe_sameTypes agree.sameTypes same s
      simp only [Observer.observe, observe, next]
      exact .ok (.coupling _)
    | nodeCount s =>
      have next := NodeCount.observe_sameTypes agree.sameTypes same s
      simp only [Observer.observe, observe, next]
      cases NodeCount.observe r' e' s with
      | ok s => exact .ok (.nodeCount s)
      | error cause => exact .error cause
    | dependency s =>
      have next := Dependency.observe_sameTypes agree.sameTypes same s
      simp only [Observer.observe, observe, next]
      exact .ok (.dependency _)
    | complexity related => exact .ok (.complexity (counting related same))

omit [CacheStore κ] [CacheStore κ'] in
/-- Analyzers of the same kinds are in the same state before their walks. -/
theorem same_start {c : κ} {c' : κ'} (fresh : related events { cache := c } { cache := c' })
    (kinds : List AnalyzerKind)
    : Forall₂ (Same related events) (kinds.map (Analyzer.start c)) (kinds.map (Analyzer.start c')) := by
  induction kinds with
  | nil => exact .nil
  | cons kind kinds ih =>
    refine .cons ?_ ih
    cases kind with
    | coupling => exact .coupling _
    | nodeCount => exact .nodeCount _
    | dependency => exact .dependency _
    | complexity => exact .complexity fresh

omit [CacheStore κ] [CacheStore κ'] in
/-- What holds of the caches of all analyzers in the end holds of the one that is left. -/
theorem findSome?_cache {P : κ → Prop} (kept : ∀ events c c', related events c c' → P c.cache) {c : κ}
    (before : P c) {as : List (Analyzer κ)} {as' : List (Analyzer κ')}
    (h : Forall₂ (fun a a' => ∃ events, Same related events a a') as as')
    : P ((as.findSome? cache?).getD c) := by
  induction h with
  | nil => exact before
  | cons related _ ih =>
    obtain ⟨_, related⟩ := related
    cases related with
    | complexity same => exact kept _ _ _ same
    | _ => exact ih

/-- Analyzers in the same state have the same results. -/
theorem Same.resultOf_eq (agree : r.Agree r') {a : Analyzer κ} {a' : Analyzer κ'}
    (h : Same (Complexity.Same entry start start') events a a')
    : Run.resultOf r a = Run.resultOf r' a' := by
  have ids := agree.declaredIds
  cases h with
  | complexity same =>
    obtain ⟨records, total⟩ := Prod.mk.inj same.results
    simp only [Run.resultOf, Run.askedIds, ids, kind, nodeIds, nodeMetrics, relations, projectMetrics,
      Complexity.nodeIds, Complexity.nodeMetrics, Complexity.projectMetrics, records, total]
  | _ =>
    simp only [Run.resultOf, Run.askedIds, ids]
    rfl

theorem map_resultOf_eq (agree : r.Agree r') {as : List (Analyzer κ)} {as' : List (Analyzer κ')}
    (h : Forall₂ (fun a a' => ∃ events, Same (Complexity.Same entry start start') events a a') as as')
    : as.map (Run.resultOf r) = as'.map (Run.resultOf r') := by
  induction h with
  | nil => rfl
  | cons related _ ih =>
    obtain ⟨_, related⟩ := related
    rw [List.map_cons, List.map_cons, related.resultOf_eq agree, ih]

/-- Analyzers over the same units tell the same, in registries that agree and with any caches whose
entries are settled.
-/
theorem run_agree (agree : r.Agree r') (faithful : Faithful start) (faithful' : Faithful start')
    {units : List CompilationUnit} (kinds : List AnalyzerKind) {c : κ} {c' : κ'}
    (holds : Holds entry start c) (holds' : Holds entry start' c')
    (settled : Walk.Visits (fun v => Settles entry v.bare) (Walk.units r units))
    : (run r units kinds c).1.fault = (run r' units kinds c').1.fault
      ∧ (run r units kinds c).1.observers.map (Run.resultOf r)
        = (run r' units kinds c').1.observers.map (Run.resultOf r')
      ∧ Holds entry start (run r units kinds c).2 := by
  have walks := Walk.bare_units agree units
  have fresh : Complexity.Same entry start start' ((Walk.units r units).events.map Event.bare)
      { cache := c } { cache := c' } :=
    ⟨settled.enter_bare, ⟨[], (Walk.tallied_units r units).bare, ⟨holds, .nil⟩, ⟨holds', .nil⟩⟩, rfl⟩
  obtain ⟨faults, states⟩ := Traversal.follow_alongside
    (simulates agree fun same => same.step faithful faithful') walks (same_start fresh kinds)
  refine ⟨faults, map_resultOf_eq agree states, findSome?_cache (fun _ _ _ same => ?_) holds states⟩
  obtain ⟨_, _, kept, _⟩ := same.counted
  exact kept.cache

end Analyzer

end

end DesignMetrics
