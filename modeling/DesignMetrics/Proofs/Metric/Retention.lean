import DesignMetrics.Proofs.Metric.Replay

/-! What analyzers leave of a cache.
Analyzers look for the records of callables and store them, and do nothing else with a cache.
-/

namespace DesignMetrics

variable {κ : Type} [CacheStore κ] {K : CacheKey → Prop} {P : κ → Prop}

/-- Whether looking for records and storing them, under keys of a kind, keeps a property of caches. -/
structure Retained (K : CacheKey → Prop) (P : κ → Prop) : Prop where
  restore : ∀ (k : CacheKey) (c : κ), K k → P c
    → P ((Cache.restoreAs ComplexityRecord.ofJson? k).run c).2
  store : ∀ (k : CacheKey) (r : ComplexityRecord) (c : κ), K k → P c
    → P ((Cache.storeJson k r.toJson).run c).2

def Visit.KeyIn (K : CacheKey → Prop) (v : Visit) : Prop :=
  ∀ callable, Callable.ofVisit? v = some callable → K callable.cacheKey

/-- Whether the cache of an analyzer has a property, and its frames have keys of a kind. -/
structure Complexity.Retains (K : CacheKey → Prop) (P : κ → Prop) (c : Complexity κ) : Prop where
  frames : ∀ f ∈ c.frames, K f.key
  cache : P c.cache

namespace Complexity.Retains

variable {c : Complexity κ}

theorem enterCallable (retained : Retained K P) (h : Retains K P c) {callable : Callable}
    (own : K callable.cacheKey) : Retains K P (c.enterCallable callable) := by
  refine ⟨fun f member => ?_, ?_⟩
  · rcases List.mem_cons.mp member with rfl | older
    · exact own
    · exact h.frames f older
  · change P ((restored callable).run c.cache).2
    unfold restored
    split
    · exact retained.restore _ _ own h.cache
    · exact h.cache

omit [CacheStore κ] in
theorem addRecord (h : Retains K P c) (more : ComplexityRecord) : Retains K P (c.addRecord more) := by
  unfold Complexity.addRecord
  split
  · rename_i frame rest split_
    split
    · exact h
    · refine ⟨fun f member => ?_, h.cache⟩
      rcases List.mem_cons.mp member with rfl | older
      · exact h.frames frame (split_ ▸ List.mem_cons_self)
      · exact h.frames f (split_ ▸ List.mem_cons_of_mem _ older)
  · exact h

theorem leaveCallable (retained : Retained K P) (h : Retains K P c) : Retains K P c.leaveCallable := by
  unfold Complexity.leaveCallable
  split
  · rename_i frame rest split_
    refine ⟨fun f member => h.frames f (split_ ▸ List.mem_cons_of_mem _ member), ?_⟩
    dsimp only
    split
    · exact h.cache
    · exact retained.store _ _ _ (h.frames frame (split_ ▸ List.mem_cons_self)) h.cache
  · exact h

theorem observe (retained : Retained K P) (h : Retains K P c) {e : Event}
    (own : ∀ v, e = .enter v → v.KeyIn K) : Retains K P (c.observe e) := by
  unfold Complexity.observe
  split
  · split
    · rename_i callable named
      exact h.enterCallable retained (own _ rfl callable named)
    · exact h.addRecord _
  · split
    · exact h.leaveCallable retained
    · exact h

end Complexity.Retains

/-- Marks do not matter to keys. -/
theorem Visit.keyIn_bare (v : Visit) : v.bare.KeyIn K ↔ v.KeyIn K := by
  simp only [KeyIn, ofVisit?_bare, Option.map_eq_some_iff]
  constructor
  · intro h callable named
    exact h { callable with cached := false } ⟨callable, named, rfl⟩
  · rintro h _ ⟨callable, named, rfl⟩
    exact h callable named

/-- A run of analyzers keeps what is kept by looking for the records of the callables on the walk, and
by storing them. -/
theorem Analyzer.run_retains (retained : Retained K P) {r : Registry} {units : List CompilationUnit}
    (own : Walk.Visits (Visit.KeyIn K) (Walk.units r units)) (kinds : List AnalyzerKind) {c : κ}
    (before : P c) : P (run r units kinds c).2 := by
  let related (events : List Event) (a : Complexity κ) (_ : Complexity NoCache) : Prop :=
    (∀ v, .enter v ∈ events → v.KeyIn K) ∧ a.Retains K P
  have sim : Traversal.Simulates r r (Same related) := by
    refine simulates (.refl r) fun {e _ _ _ _} same _ => ?_
    obtain ⟨known, retains⟩ := same
    refine ⟨fun v member => known v (List.mem_cons_of_mem _ member), retains.observe retained ?_⟩
    rintro v rfl
    exact v.keyIn_bare.mp (known v.bare List.mem_cons_self)
  have fresh : related ((Walk.units r units).events.map Event.bare) { cache := c }
      { cache := NoCache.mk } :=
    ⟨Walk.Visits.enter_bare fun v there => v.keyIn_bare.mpr (own v there), by simp, before⟩
  obtain ⟨_, states⟩ := Traversal.follow_alongside sim rfl (same_start fresh kinds)
  exact findSome?_cache (fun _ _ _ same => same.2.cache) before states

end DesignMetrics
