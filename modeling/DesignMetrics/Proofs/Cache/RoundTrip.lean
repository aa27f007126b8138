import DesignMetrics.Proofs.Cache.Faithful
import DesignMetrics.Proofs.Model.Recovery

/-! Values that go through a cache in memory.
A snapshot that was stored is restored unless it is nested too deeply, and then its entry is dropped;
nothing else in the cache changes.
-/

namespace DesignMetrics

namespace MemoryCache

variable {α : Type} (read : Json.Reads α) (c : MemoryCache) (k : CacheKey)

def value? : Option α := c.entries[k]?.bind fun payload => (Json.parseStored? payload).bind read

/-- Storing changes one entry. -/
theorem entries_storeJson (value : Json) (other : CacheKey)
    : ((Cache.storeJson k value).run c).2.entries[other]?
      = if other = k then some value.compact.toUTF8 else c.entries[other]? := by
  have stored : ((Cache.storeJson k value).run c).2.entries = c.entries.insert k value.compact.toUTF8 :=
    rfl
  rw [stored, Std.TreeMap.getElem?_insert]
  simp only [Std.LawfulEqOrd.compare_eq_iff_eq, @eq_comm _ k]

/-- Restoring finds the value that can be read, and drops the entry if there is none. -/
theorem run_restoreAs
    : ((Cache.restoreAs read k).run c).1 = c.value? read k
      ∧ ∀ other, ((Cache.restoreAs read k).run c).2.entries[other]?
        = if other = k ∧ c.value? read k = none then none else c.entries[other]? := by
  have found : (CacheStore.restore k : StateM MemoryCache _).run c = (c.entries[k]?, c) := rfl
  rw [Cache.run_restoreAs, found, value?]
  cases entry : c.entries[k]? with
  | none =>
    refine ⟨rfl, fun other => ?_⟩
    by_cases same : other = k
    · subst same
      simp [entry]
    · rw [if_neg fun both => same both.1]
  | some payload =>
    rw [Option.bind_some]
    dsimp only
    cases value : (Json.parseStored? payload).bind read with
    | some a => exact ⟨rfl, fun other => by simp⟩
    | none =>
      refine ⟨rfl, fun other => ?_⟩
      have erased : ((CacheStore.remove k : StateM MemoryCache _).run c).2.entries = c.entries.erase k :=
        rfl
      dsimp only
      rw [erased, Std.TreeMap.getElem?_erase]
      simp only [Std.LawfulEqOrd.compare_eq_iff_eq, @eq_comm _ k, and_true]

end MemoryCache

/-- A snapshot comes out of a cache as it was put in, apart from the marks of nodes that come from a
cache, unless it is nested too deeply: then it is dropped. No other entry changes. -/
theorem restoreAs_storeJson_snapshot (c : MemoryCache) (k : CacheKey) (s : Snapshot) :
    let stored := (Cache.storeJson k s.toJson).run c
    let restored := (Cache.restoreAs (Snapshot.ofJson? .ofText) k).run stored.2
    stored.1 = .ok ()
      ∧ restored.1 = (if s.toJson.depth ≤ 127 then some s.bare else none)
      ∧ restored.2.entries[k]?
        = (if s.toJson.depth ≤ 127 then some s.toJson.compact.toUTF8 else none)
      ∧ ∀ other ≠ k, restored.2.entries[other]? = c.entries[other]? := by
  intro stored restored
  have entries (other : CacheKey) : stored.2.entries[other]?
      = if other = k then some s.toJson.compact.toUTF8 else c.entries[other]? :=
    c.entries_storeJson k s.toJson other
  have value : stored.2.value? (Snapshot.ofJson? .ofText) k
      = if s.toJson.depth ≤ 127 then some s.bare else none := by
    rw [MemoryCache.value?, entries, if_pos rfl, Option.bind_some]
    exact s.read_stored .ofText
  obtain ⟨found, left⟩ := stored.2.run_restoreAs (Snapshot.ofJson? .ofText) k
  refine ⟨rfl, found.trans value, ?_, fun other apart => ?_⟩
  · rw [left, value, entries, if_pos rfl]
    split <;> simp_all
  · rw [left, if_neg fun both => apart both.1, entries, if_neg apart]

end DesignMetrics
