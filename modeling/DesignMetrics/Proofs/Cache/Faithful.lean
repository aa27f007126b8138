import DesignMetrics.Cache.Memory

/-! Caches that return nothing but what was stored.
Nothing else is asked of a cache: it may lose payloads, fail to store them and return older ones. A
property of everything that is stored is then one of everything that is restored.
-/

namespace DesignMetrics

section

variable {κ : Type} [CacheStore κ]

/-- What a cache becomes by being used, with what has been stored on the way, the last first. -/
inductive Reached (start : κ) : List (CacheKey × ByteArray) → κ → Prop
  | start : Reached start [] start
  | restore {log : List (CacheKey × ByteArray)} {c : κ} (k : CacheKey)
    : Reached start log c → Reached start log ((CacheStore.restore k : StateM κ _).run c).2
  | store {log : List (CacheKey × ByteArray)} {c : κ} (k : CacheKey) (payload : ByteArray)
    : Reached start log c
      → Reached start ((k, payload) :: log) ((CacheStore.store k payload : StateM κ _).run c).2
  | remove {log : List (CacheKey × ByteArray)} {c : κ} (k : CacheKey)
    : Reached start log c → Reached start log ((CacheStore.remove k : StateM κ _).run c).2

/-- Whether a cache is empty and will return, under each key, nothing or a payload that was stored
under this key. -/
def Faithful (start : κ) : Prop :=
  ∀ log c, Reached start log c
    → ∀ k payload, ((CacheStore.restore k : StateM κ _).run c).1 = some payload → (k, payload) ∈ log

/-- Whether all that has been stored in a cache has a property. -/
def Holds (entry : CacheKey → ByteArray → Prop) (start c : κ) : Prop :=
  ∃ log, Reached start log c ∧ ∀ e ∈ log, entry e.1 e.2

variable {entry : CacheKey → ByteArray → Prop} {start c : κ}

theorem holds_start (entry : CacheKey → ByteArray → Prop) (start : κ) : Holds entry start start :=
  ⟨[], .start, by simp⟩

theorem Holds.mono (h : Holds entry start c) {entry' : CacheKey → ByteArray → Prop}
    (weaker : ∀ k payload, entry k payload → entry' k payload) : Holds entry' start c := by
  obtain ⟨log, reached, entries⟩ := h
  exact ⟨log, reached, fun e member => weaker _ _ (entries e member)⟩

theorem Holds.storeJson (h : Holds entry start c) {k : CacheKey} {value : Json}
    (new : entry k value.compact.toUTF8) : Holds entry start ((Cache.storeJson k value).run c).2 := by
  obtain ⟨log, reached, entries⟩ := h
  refine ⟨_, reached.store k value.compact.toUTF8, fun e member => ?_⟩
  rcases List.mem_cons.mp member with rfl | older
  · exact new
  · exact entries e older

/-- What restoring a value comes to: the payload is read, and removed if it cannot be. -/
theorem Cache.run_restoreAs {α : Type} (read : Json.Reads α) (k : CacheKey) (c : κ)
    : (restoreAs read k).run c
      = match (CacheStore.restore k : StateM κ _).run c with
        | (none, after) => (none, after)
        | (some payload, after) =>
          match (Json.parseStored? payload).bind read with
          | some a => (some a, after)
          | none => (none, ((CacheStore.remove k : StateM κ _).run after).2) := by
  unfold restoreAs
  rw [StateT.run_bind]
  generalize (CacheStore.restore k : StateM κ _).run c = outcome
  obtain ⟨found, after⟩ := outcome
  cases found with
  | none => rfl
  | some payload =>
    change StateT.run (match (Json.parseStored? payload).bind read with
        | some a => pure (some a)
        | none => CacheStore.remove k >>= fun _ => pure none) after
      = match (Json.parseStored? payload).bind read with
        | some a => (some a, after)
        | none => (none, ((CacheStore.remove k : StateM κ _).run after).2)
    cases (Json.parseStored? payload).bind read <;> rfl

/-- What is restored was read from an entry, and what is left still has the property. -/
theorem Holds.restoreAs (faithful : Faithful start) (h : Holds entry start c) {α : Type}
    (read : Json.Reads α) (k : CacheKey)
    : Holds entry start ((Cache.restoreAs read k).run c).2
      ∧ ∀ a, ((Cache.restoreAs read k).run c).1 = some a
        → ∃ payload, entry k payload ∧ (Json.parseStored? payload).bind read = some a := by
  obtain ⟨log, reached, entries⟩ := h
  have restored := reached.restore k
  have sound := faithful log c reached k
  rw [Cache.run_restoreAs]
  split
  · rename_i outcome
    rw [outcome] at restored
    exact ⟨⟨log, restored, entries⟩, by simp⟩
  · rename_i payload after outcome
    rw [outcome] at restored sound
    have stored := entries _ (sound payload rfl)
    split
    · rename_i a value
      exact ⟨⟨log, restored, entries⟩, fun b same => ⟨payload, stored, value.trans same⟩⟩
    · exact ⟨⟨log, restored.remove k, entries⟩, by simp⟩

end

theorem NoCache.faithful : Faithful NoCache.mk := fun _ _ _ _ _ found => nomatch found

/-- What an empty cache in memory returns has been stored. -/
theorem MemoryCache.faithful : Faithful ({} : MemoryCache) := by
  have kept {log : List (CacheKey × ByteArray)} {c : MemoryCache} (reached : Reached {} log c)
      : ∀ k payload, c.entries[k]? = some payload → (k, payload) ∈ log := by
    induction reached with
    | start => simp
    | restore k _ ih => exact ih
    | @store log c key new _ ih =>
      intro k payload found
      have found : (c.entries.insert key new)[k]? = some payload := found
      rw [Std.TreeMap.getElem?_insert] at found
      split at found
      · rename_i same
        obtain rfl := Std.LawfulEqOrd.eq_of_compare same
        simp_all
      · exact List.mem_cons_of_mem _ (ih k payload found)
    | @remove log c key _ ih =>
      intro k payload found
      have found : (c.entries.erase key)[k]? = some payload := found
      rw [Std.TreeMap.getElem?_erase] at found
      split at found
      · simp at found
      · exact ih k payload found
  exact fun log c reached k payload found => kept reached k payload found

end DesignMetrics
