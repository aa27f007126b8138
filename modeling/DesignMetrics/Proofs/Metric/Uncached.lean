import DesignMetrics.Proofs.Metric.Replay
import DesignMetrics.Proofs.Traversal.Nesting

/-! Complexities without a cache.
Nothing is restored, so every callable is counted from its body. What is known in the end are the
records of the callables that have been left, by their identifiers and in total, and so it does not
depend on the order in which they were left.
-/

namespace DesignMetrics

open List

def OpenCallable.frame? (o : OpenCallable) : Option ComplexityFrame :=
  (Callable.ofVisit? o.1).map fun c => ⟨c.id, c.cacheKey, o.2, false⟩

variable {events : List Event}

namespace Complexity

variable {frames : List OpenCallable} {c : Complexity NoCache}

def Counting (frames : List OpenCallable) (c : Complexity NoCache) : Prop :=
  Forall₂ (fun o f => OpenCallable.frame? o = some f) frames c.frames

theorem counting_start : Counting [] { cache := ⟨⟩ } := .nil

theorem restored_eq_none (callable : Callable) (cache : NoCache)
    : (restored callable).run cache = (none, cache) := by
  unfold restored
  split <;> rfl

theorem counting_enterCallable (h : Counting frames c) {v : Visit} {callable : Callable}
    (named : Callable.ofVisit? v = some callable)
    : Counting ((v, ⟨1, 1⟩) :: frames) (c.enterCallable callable)
      ∧ (c.enterCallable callable).results = c.results := by
  have entered : c.enterCallable callable
      = { c with frames := ⟨callable.id, callable.cacheKey, ⟨1, 1⟩, false⟩ :: c.frames } := by
    simp only [enterCallable, restored_eq_none]
    rfl
  rw [entered]
  exact ⟨.cons (by simp [OpenCallable.frame?, named]) h, rfl⟩

theorem counting_addRecord (h : Counting frames c) (more : ComplexityRecord)
    : Counting (addOpen more frames) (c.addRecord more) ∧ (c.addRecord more).results = c.results := by
  unfold Counting at h
  unfold addRecord
  generalize split : c.frames = own at h
  cases h with
  | nil => exact ⟨by rw [Counting, split]; exact .nil, rfl⟩
  | @cons o f rest rest' first others =>
    obtain ⟨callable, named, rfl⟩ := Option.map_eq_some_iff.mp first
    exact ⟨.cons (by simp [OpenCallable.frame?, named]) others, rfl⟩

/-- A callable that is left has the record that has been counted for it. -/
theorem counting_leaveCallable {o : OpenCallable} (h : Counting (o :: frames) c) {callable : Callable}
    (named : Callable.ofVisit? o.1 = some callable)
    : Counting frames c.leaveCallable
      ∧ c.leaveCallable.results = addResult c.results (some (callable.id, o.2)) := by
  unfold Counting at h
  unfold leaveCallable
  generalize split : c.frames = own at h
  cases h with
  | @cons _ f _ rest first others =>
    obtain rfl : _ = f := by simpa [OpenCallable.frame?, named] using first
    exact ⟨others, rfl⟩

/-- An event keeps the frames of the open callables, and a callable that it leaves has its result. -/
theorem counting_observe (h : Counting frames c) {e : Event} (complete : Complete frames e)
    : Counting (stepOpen frames e) (c.observe e)
      ∧ (c.observe e).results = addResult c.results e.result? := by
  cases e with
  | enter v =>
    rcases v.callable_cases with ⟨callable, body, named, code⟩ | ⟨named, code⟩
    · simpa [observe, named, stepOpen, code, Event.result?, addResult]
        using counting_enterCallable h named
    · simpa [observe, named, stepOpen, code, Event.result?, addResult]
        using counting_addRecord h (.ofVisit v)
  | leave v =>
    rcases v.callable_cases with ⟨callable, body, named, code⟩ | ⟨named, code⟩
    · obtain ⟨rest, rfl⟩ := List.head?_eq_some_iff.mp (complete body code)
      simpa [observe, named, stepOpen, code, Event.result?] using counting_leaveCallable h named
    · simpa [observe, named, stepOpen, code, Event.result?, addResult] using h

/-- The results are those of the callables that are left. -/
theorem results_foldl_observe (h : Counting frames c) (tallied : Tallied frames events)
    : (events.foldl (fun c e => c.observe e) c).results
      = (events.filterMap Event.result?).foldl (fun all new => addResult all (some new)) c.results := by
  induction events generalizing frames c with
  | nil => rfl
  | cons e events ih =>
    obtain ⟨complete, later⟩ := tallied
    obtain ⟨counting, results⟩ := counting_observe h complete
    rw [List.foldl_cons, ih counting later, results]
    cases new : e.result? with
    | none => simp [new, addResult]
    | some new => simp [new]

section

variable {κ : Type} [CacheStore κ]

def Uncached (events : List Event) : Prop :=
  ∀ v callable, .enter v ∈ events → Callable.ofVisit? v = some callable → callable.cached = false

def forget (c : Complexity κ) : Complexity NoCache := { c with cache := ⟨⟩ }

/-- A cache does not matter as long as nothing is restored from it. -/
theorem forget_observe {e : Event} (uncached : Uncached [e]) (c : Complexity κ)
    : (c.observe e).forget = c.forget.observe e := by
  cases e with
  | enter v =>
    rcases v.callable_cases with ⟨callable, _, named, _⟩ | ⟨named, _⟩
    · have nothing : (restored callable).run c.cache = (none, c.cache) := by
        rw [restored, uncached v callable (by simp) named]
        rfl
      simp only [observe, named, enterCallable, nothing, restored_eq_none]
      rfl
    · obtain ⟨_, frames, _, _⟩ := c
      simp only [observe, named]
      cases frames with
      | nil => rfl
      | cons frame => cases kind : frame.restored <;> simp [addRecord, forget, kind]
  | leave v =>
    obtain ⟨_, frames, _, _⟩ := c
    simp only [observe]
    split
    · cases frames <;> rfl
    · rfl

theorem forget_foldl_observe (uncached : Uncached events) (c : Complexity κ)
    : (events.foldl (fun c e => c.observe e) c).forget
      = events.foldl (fun c e => c.observe e) c.forget := by
  induction events generalizing c with
  | nil => rfl
  | cons e events ih =>
    have first : Uncached [e] := fun v callable here =>
      uncached v callable (List.mem_cons.mpr (.inl (List.mem_singleton.mp here)))
    rw [List.foldl_cons, List.foldl_cons, ← forget_observe first]
    exact ih (fun v callable later => uncached v callable (List.mem_cons_of_mem _ later)) _

/-- The results of a walk that no callable from the cache is entered in. -/
theorem results_of_uncached (uncached : Uncached events) (tallied : Tallied [] events) (cache : κ)
    : (events.foldl (fun c e => c.observe e) ({ cache } : Complexity κ)).results
      = (events.filterMap Event.result?).foldl (fun all new => addResult all (some new))
          (∅, ⟨0, 0⟩) := by
  have forgotten (c : Complexity κ) : c.results = c.forget.results := rfl
  rw [forgotten, forget_foldl_observe uncached]
  exact results_foldl_observe counting_start tallied

end

theorem foldl_addResult (entries : List (NodeId × ComplexityRecord))
    (all : Std.TreeMap NodeId ComplexityRecord × ComplexityRecord)
    : entries.foldl (fun all new => addResult all (some new)) all
      = (all.1.insertMany entries, all.2.add (.sum (entries.map Prod.snd))) := by
  induction entries generalizing all with
  | nil => simp
  | cons new entries ih =>
    rw [List.foldl_cons, ih, Std.TreeMap.insertMany_cons, List.map_cons, ComplexityRecord.sum_cons,
      ← ComplexityRecord.add_assoc]
    rfl

end Complexity

theorem ComplexityRecord.sum_perm {records records' : List ComplexityRecord}
    (same : records.Perm records') : sum records = sum records' := by
  induction same with
  | nil => rfl
  | cons a _ ih => rw [sum_cons, sum_cons, ih]
  | swap a b records => simp only [sum_cons, add_left_comm]
  | trans _ _ first second => exact first.trans second

/-- Entries whose values are known from their keys, in a map. -/
theorem getElem?_insertMany {α β : Type} [Ord α] [Std.TransOrd α] [Std.LawfulEqOrd α] [DecidableEq α]
    (value : α → β) {entries : List (α × β)} (own : ∀ e ∈ entries, e.2 = value e.1)
    (m : Std.TreeMap α β) (a : α)
    : (m.insertMany entries)[a]? = if a ∈ entries.map Prod.fst then some (value a) else m[a]? := by
  induction entries generalizing m with
  | nil => simp
  | cons e entries ih =>
    obtain ⟨key, new⟩ := e
    obtain rfl : new = value key := own (key, new) (by simp)
    rw [Std.TreeMap.insertMany_cons, ih fun e member => own e (List.mem_cons_of_mem _ member),
      Std.TreeMap.getElem?_insert]
    simp only [Std.LawfulEqCmp.compare_eq_iff_eq, List.map_cons, List.mem_cons]
    grind

/-- What is left has been open or has been entered. -/
theorem Chained.entered_of_left {chain last : List Visit} (h : Chained chain events last)
    {v : Visit} (left : .leave v ∈ events) : v ∈ chain ∨ .enter v ∈ events := by
  induction h with
  | nil => simp at left
  | enter _ _ ih =>
    rcases ih (by simpa using left) with inside | later
    · rcases List.mem_cons.mp inside with rfl | outside
      · exact .inr (by simp)
      · exact .inl outside
    · exact .inr (List.mem_cons_of_mem _ later)
  | leave _ ih =>
    rcases List.mem_cons.mp left with same | later
    · obtain rfl := Event.leave.inj same
      exact .inl (by simp)
    · rcases ih later with outside | later
      · exact .inl (List.mem_cons_of_mem _ outside)
      · exact .inr (List.mem_cons_of_mem _ later)

def Registry.complexityOf (r : Registry) (id : NodeId) : ComplexityRecord :=
  .ofBody (((r.node? id).map Node.statements).getD [])

/-- The record of a registered callable is known from its identifier. -/
theorem Event.eq_complexityOf {r : Registry} (apart : r.Apart) {v : Visit}
    (registered : v.Registered r)
    {entry : NodeId × ComplexityRecord} (h : (Event.leave v).result? = some entry)
    : entry.2 = r.complexityOf entry.1 := by
  cases v with
  | method n | function n =>
    obtain rfl := Option.some.inj h
    have node : r.node? n.id = some _ := apart.node?_iff.mpr ⟨registered _ rfl, .refl _⟩
    simp [Registry.complexityOf, node, Node.statements]
  | _ => simp [Event.result?, Callable.ofVisit?] at h

/-- What is known of complexities does not depend on the order of the units. -/
theorem Walk.complexities_perm {r : Registry} (apart : r.Apart) {us us' : List CompilationUnit}
    (same : us.Perm us') (fine : (units r us).fault = none)
    : let after (us : List CompilationUnit) :=
        (units r us).events.foldl (fun c e => c.observe e) ({ cache := ⟨⟩ } : Complexity NoCache)
      (after us).total = (after us').total
      ∧ ∀ id : NodeId, (after us).records[id]? = (after us').records[id]? := by
  intro after
  have results (us : List CompilationUnit) : (after us).results = _ :=
    Complexity.results_foldl_observe Complexity.counting_start (tallied_units r us)
  have own (us : List CompilationUnit) (e : NodeId × ComplexityRecord)
      (member : e ∈ (units r us).events.filterMap Event.result?) : e.2 = r.complexityOf e.1 := by
    obtain ⟨event, there, result⟩ := List.mem_filterMap.mp member
    cases event with
    | enter v => simp [Event.result?] at result
    | leave v =>
      obtain ⟨_, chained, _⟩ := nests_unitsTo r (r.size + 1) us
      have entered := (chained.entered_of_left there).resolve_left (by simp)
      exact Event.eq_complexityOf apart (visits_registered r _ us v entered) result
  have entries := (units_events_perm same fine).filterMap Event.result?
  have total (us : List CompilationUnit) : (after us).total = (after us).results.2 := rfl
  have records (us : List CompilationUnit) : (after us).records = (after us).results.1 := rfl
  constructor
  · rw [total, total, results, results, Complexity.foldl_addResult, Complexity.foldl_addResult,
      ComplexityRecord.sum_perm (entries.map Prod.snd)]
  · intro id
    rw [records, records, results, results, Complexity.foldl_addResult, Complexity.foldl_addResult]
    simp only [getElem?_insertMany r.complexityOf (own _), (entries.map Prod.fst).mem_iff]

end DesignMetrics
