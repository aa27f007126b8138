import DesignMetrics.Proofs.Metric.UnitOrder
import DesignMetrics.Proofs.Run.Reuse

/-! Entries that cannot be read.
A run takes an entry that cannot be read for one that is not there, so it cannot tell two caches apart
in which the same values can be read.
-/

namespace DesignMetrics

-- Caches in which the same can be read

namespace MemoryCache

def ReadAlike {α : Type} (read : Json.Reads α) (tag : String) (c c' : MemoryCache) : Prop :=
  ∀ k : CacheKey, k.tag = tag → c.value? read k = c'.value? read k

section

variable {c c' : MemoryCache} {k : CacheKey}

/-- Storing changes what can be read under one key. -/
theorem value?_storeJson {α : Type} (read : Json.Reads α) (value : Json) (other : CacheKey)
    : ((Cache.storeJson k value).run c).2.value? read other
      = if other = k then (Json.parseStored? value.compact.toUTF8).bind read
        else c.value? read other := by
  rw [value?, entries_storeJson]
  split <;> rfl

/-- Restoring a value changes nothing that can be read: the entry that it drops could not be. -/
theorem value?_restoreAs {α β : Type} (read : Json.Reads α) (read' : Json.Reads β) {other : CacheKey}
    (same : other = k → c.value? read k = none → c.value? read' other = none)
    : ((Cache.restoreAs read k).run c).2.value? read' other = c.value? read' other := by
  rw [value?, (c.run_restoreAs read k).2]
  split
  · rename_i dropped
    exact (same dropped.1 dropped.2).symm
  · rfl

namespace ReadAlike

variable {α β : Type} {read : Json.Reads α} {read' : Json.Reads β} {tag : String}

theorem storeJson (h : ReadAlike read tag c c') (value : Json)
    : ReadAlike read tag ((Cache.storeJson k value).run c).2 ((Cache.storeJson k value).run c').2 := by
  intro other tagged
  rw [value?_storeJson, value?_storeJson, h other tagged]

/-- What is looked for under such a key is found in both caches or in none. -/
theorem restoreAs (h : ReadAlike read tag c c') (tagged : k.tag = tag)
    : ((Cache.restoreAs read k).run c).1 = ((Cache.restoreAs read k).run c').1
      ∧ ReadAlike read tag ((Cache.restoreAs read k).run c).2 ((Cache.restoreAs read k).run c').2 := by
  refine ⟨?_, fun other own => ?_⟩
  · rw [(c.run_restoreAs read k).1, (c'.run_restoreAs read k).1, h k tagged]
  · rw [value?_restoreAs, value?_restoreAs, h other own] <;> exact fun same none => same ▸ none

/-- What is looked for under another key does not matter. -/
theorem restoreOther (h : ReadAlike read tag c c') (other : k.tag ≠ tag) (read' : Json.Reads β)
    : ReadAlike read tag ((Cache.restoreAs read' k).run c).2 ((Cache.restoreAs read' k).run c').2 := by
  intro l own
  have apart : l ≠ k := fun same => other (same ▸ own)
  rw [value?_restoreAs, value?_restoreAs, h l own] <;> exact fun same => absurd same apart

end ReadAlike

end

/-- Whether a run can find the same in two caches. -/
structure Interchangeable (c c' : MemoryCache) : Prop where
  units : ReadAlike (Snapshot.ofJson? .ofText) "ast" c c'
  records : ReadAlike ComplexityRecord.ofJson? "ccn" c c'

def isReadable (k : CacheKey) (payload : ByteArray) : Bool :=
  if k.tag = "ast" then ((Json.parseStored? payload).bind (Snapshot.ofJson? .ofText)).isSome
  else if k.tag = "ccn" then ((Json.parseStored? payload).bind ComplexityRecord.ofJson?).isSome
  else true

def withoutCorrupt (c : MemoryCache) : MemoryCache := ⟨c.entries.filter isReadable⟩

/-- What cannot be read is not missed. -/
theorem interchangeable_withoutCorrupt (c : MemoryCache) : Interchangeable c c.withoutCorrupt := by
  have filtered {α : Type} (read : Json.Reads α) {k : CacheKey}
      (checked : ∀ payload, isReadable k payload = ((Json.parseStored? payload).bind read).isSome)
      : c.value? read k = c.withoutCorrupt.value? read k := by
    have entry : c.withoutCorrupt.entries[k]? = Option.filter (isReadable k) c.entries[k]? :=
      Std.TreeMap.getElem?_filter'
    rw [value?, value?, entry]
    cases c.entries[k]? with
    | none => rfl
    | some payload =>
      rw [Option.filter_some, checked]
      cases value : (Json.parseStored? payload).bind read <;> simp [value]
  exact ⟨fun k tag => filtered _ fun payload => by simp [isReadable, tag],
    fun k tag => filtered _ fun payload => by simp [isReadable, tag]⟩

-- Actions

def Indifferent {α : Type} (action : StateM MemoryCache α) : Prop :=
  ∀ c c', Interchangeable c c'
    → (action.run c).1 = (action.run c').1 ∧ Interchangeable (action.run c).2 (action.run c').2

namespace Indifferent

variable {α β : Type}

theorem pure (a : α) : Indifferent (pure a) := fun _ _ h => ⟨rfl, h⟩

theorem bind {action : StateM MemoryCache α} {next : α → StateM MemoryCache β}
    (first : Indifferent action) (second : ∀ a, Indifferent (next a))
    : Indifferent (action >>= next) := by
  intro c c' h
  obtain ⟨same, alike⟩ := first c c' h
  have later := second (action.run c).1 _ _ alike
  have other : (action >>= next).run c' = (next (action.run c).1).run (action.run c').2 := by
    rw [same]
    rfl
  rw [other]
  exact later

theorem mapM {action : α → StateM MemoryCache β} (each : ∀ a, Indifferent (action a)) (l : List α)
    : Indifferent (l.mapM action) := by
  induction l with
  | nil => exact .pure []
  | cons a l ih =>
    rw [List.mapM_cons]
    exact (each a).bind fun b => ih.bind fun bs => .pure (b :: bs)

theorem storeJson (k : CacheKey) (value : Json) : Indifferent (Cache.storeJson k value) :=
  fun _ _ h => ⟨rfl, h.units.storeJson value, h.records.storeJson value⟩

theorem restoreUnit {k : CacheKey} (tag : k.tag = "ast")
    : Indifferent (Cache.restoreAs (Snapshot.ofJson? .ofText) k) := by
  intro c c' h
  obtain ⟨found, units⟩ := h.units.restoreAs tag
  exact ⟨found, units, h.records.restoreOther (by simp [tag]) _⟩

theorem restoreRecord {k : CacheKey} (tag : k.tag = "ccn")
    : Indifferent (Cache.restoreAs ComplexityRecord.ofJson? k) := by
  intro c c' h
  obtain ⟨found, records⟩ := h.records.restoreAs tag
  exact ⟨found, h.units.restoreOther (by simp [tag]) _, records⟩

theorem prepare (parser : Parser) (s : InputFile) : Indifferent (Run.prepare parser s) :=
  (restoreUnit rfl).bind fun found => by cases found <;> exact .pure _

theorem keep (s : InputFile) (unit : CompilationUnit) (r : Registry)
    : Indifferent (Run.keep s unit r) := by
  unfold Run.keep
  split
  · exact (storeJson _ _).bind fun _ => .pure ()
  · exact .pure ()

theorem addFile (parser : Parser) (p : Run.Progress) (s : InputFile) (prepared : Run.Prepared)
    : Indifferent (Run.addFile parser p s prepared) := by
  unfold Run.addFile
  split
  · exact .pure _
  · exact (keep _ _ _).bind fun _ => .pure _
  · exact .pure _

theorem addFiles (parser : Parser) (p : Run.Progress) (files : List (InputFile × Run.Prepared))
    : Indifferent (Run.addFiles parser p files) := by
  induction files generalizing p with
  | nil => exact .pure p
  | cons file files ih => exact (addFile parser p file.1 file.2).bind fun next => ih next

theorem buildUnits (parser : Parser) (sources : List InputFile)
    : Indifferent (Run.buildUnits parser sources) :=
  (mapM (prepare parser) sources).bind fun prepared => addFiles parser {} (sources.zip prepared)

theorem restored (callable : Callable) : Indifferent (Complexity.restored callable) := by
  unfold Complexity.restored
  split
  · exact restoreRecord rfl
  · exact .pure none

end Indifferent

end MemoryCache

open MemoryCache (Interchangeable Indifferent)

-- Analyzers

/-- Whether two analyzers are in the same state but for their caches, which are interchangeable. -/
structure Complexity.Interchangeable (c c' : Complexity MemoryCache) : Prop where
  cache : MemoryCache.Interchangeable c.cache c'.cache
  state : c' = { c with cache := c'.cache }

namespace Complexity.Interchangeable

variable {c c' : Complexity MemoryCache} (h : Interchangeable c c')

include h

theorem enterCallable (callable : Callable)
    : Interchangeable (c.enterCallable callable) (c'.enterCallable callable) := by
  obtain ⟨found, cache⟩ := Indifferent.restored callable _ _ h.cache
  rw [h.state]
  unfold Complexity.enterCallable
  dsimp only
  generalize (restored callable).run c.cache = left at found cache
  generalize (restored callable).run c'.cache = right at found cache
  obtain ⟨record, after⟩ := left
  obtain ⟨record', after'⟩ := right
  obtain rfl : record = record' := found
  exact ⟨cache, rfl⟩

theorem addRecord (more : ComplexityRecord)
    : Interchangeable (c.addRecord more) (c'.addRecord more) := by
  have caches (c : Complexity MemoryCache) : (c.addRecord more).cache = c.cache := by
    unfold Complexity.addRecord
    repeat' split
    all_goals rfl
  refine ⟨by rw [caches, caches]; exact h.cache, ?_⟩
  rw [caches, h.state]
  unfold Complexity.addRecord
  dsimp only
  repeat' split
  all_goals rfl

theorem leaveCallable : Interchangeable c.leaveCallable c'.leaveCallable := by
  rw [h.state]
  unfold Complexity.leaveCallable
  dsimp only
  split
  · refine ⟨?_, rfl⟩
    dsimp only
    split
    · exact h.cache
    · exact (Indifferent.storeJson _ _ _ _ h.cache).2
  · exact ⟨h.cache, rfl⟩

theorem observe (e : Event) : Interchangeable (c.observe e) (c'.observe e) := by
  unfold Complexity.observe
  split
  · split
    · exact h.enterCallable _
    · exact h.addRecord _
  · split
    · exact h.leaveCallable
    · exact h

theorem observeAll (events : List Event)
    : Interchangeable (events.foldl (fun c e => c.observe e) c)
        (events.foldl (fun c e => c.observe e) c') := by
  induction events generalizing c c' with
  | nil => exact h
  | cons e events ih => exact ih (h.observe e)

end Complexity.Interchangeable

namespace Analyzer

variable {c c' : MemoryCache} (h : Interchangeable c c') (r : Registry)

include h

/-- What an analyzer comes to does not depend on which of two interchangeable caches it starts with. -/
theorem resultOf_interchangeable (events : List Event) (kind : AnalyzerKind)
    : (Traversal.observeAll r events (start c kind)).map (Run.resultOf r)
      = (Traversal.observeAll r events (start c' kind)).map (Run.resultOf r) := by
  cases kind with
  | complexity =>
    have fresh : Complexity.Interchangeable { cache := c } { cache := c' } := ⟨h, rfl⟩
    rw [start, start, observeAll_complexity, observeAll_complexity, (fresh.observeAll events).state]
    rfl
  | _ => rfl

/-- Analyzers end alike with interchangeable caches. -/
theorem returned_interchangeable (p : Run.Progress) (kinds : List AnalyzerKind)
    : Run.returned p (run p.registry p.units kinds c).1
      = Run.returned p (run p.registry p.units kinds c').1 := by
  have faults := fault_agree (.refl p.registry) p.units kinds c c'
  unfold Run.returned
  rw [← faults]
  cases fine : (run p.registry p.units kinds c).1.fault with
  | some fault => rfl
  | none =>
    have results (c : MemoryCache) (fine : (run p.registry p.units kinds c).1.fault = none)
        : ((run p.registry p.units kinds c).1.observers.map (Run.resultOf p.registry)).map Except.ok
          = kinds.map fun kind => (Traversal.observeAll (φ := NodeCountFault) p.registry
              (Walk.units p.registry p.units).events (start c kind)).map (Run.resultOf p.registry) := by
      have states := congrArg (List.map (Except.map (Run.resultOf p.registry)))
        (Traversal.follow_states fine)
      rw [List.map_map, List.map_map, List.map_map] at states
      rw [List.map_map]
      exact states
    have same := results c' (faults ▸ fine)
    simp only [← resultOf_interchangeable h, ← results c fine] at same
    rw [List.map_injective_iff.mpr (fun _ _ => Except.ok.inj) same]

end Analyzer

-- Entries that are dropped

namespace Run

/-- Whether a payload under a key is what a file is kept as, somewhere among others. -/
def KeptAs (parser : Parser) (sources : List InputFile) (k : CacheKey) (payload : ByteArray) : Prop :=
  ∃ s ∈ sources, unitKey s = k ∧ ∃ file r, parser s = some file
    ∧ (file.bind s.fingerprint r).1.shadowed = []
    ∧ payload
      = (Snapshot.collect (file.bind s.fingerprint r).1 (file.bind s.fingerprint r).2).toJson.text

variable {parser : Parser} {sources : List InputFile} {c : MemoryCache} {s : InputFile}

variable (parser) in
/-- What cannot be read is gone after all files have been looked for. -/
theorem prepareAll_drops {used : List InputFile} (member : s ∈ used)
    (corrupt : c.value? (Snapshot.ofJson? .ofText) (unitKey s) = none)
    : ((used.mapM (prepare parser)).run c).2.entries[unitKey s]? = none := by
  induction used generalizing c with
  | nil => simp at member
  | cons t used ih =>
    have left := (run_prepare parser c t).2
    rw [List.mapM_cons]
    change ((used.mapM (prepare parser)).run ((prepare parser t).run c).2).2.entries[unitKey s]? = none
    by_cases here : unitKey s = unitKey t
    · refine (run_prepareAll parser _ used).2 _ ?_
      rw [left, if_pos ⟨here, here ▸ corrupt⟩]
    · refine ih ?_ ?_
      · exact (List.mem_cons.mp member).resolve_left fun same => here (congrArg unitKey same)
      · rw [MemoryCache.value?, left, if_neg fun both => here both.1]
        exact corrupt

/-- A file that is bound has been parsed. -/
theorem parsed_of_recheck {file : SourceFile} {r : Registry}
    (h : recheck parser r s (found parser c s) = .file file) : parser s = some file := by
  have parsed (h : parse parser s = .file file) : parser s = some file := by
    unfold parse at h
    split at h
    · rename_i parsed
      rw [parsed, Prepared.file.inj h]
    · simp at h
  unfold found at h
  split at h
  · unfold recheck at h
    dsimp only at h
    split at h
    · exact parsed h
    · simp at h
  · refine parsed ?_
    rw [← h]
    unfold parse
    cases parser s <;> rfl

variable (parser c)

/-- An entry stays as it is when a file is added, unless it is replaced. -/
theorem addFile_entries (p : Progress) (member : s ∈ sources) (d : MemoryCache) (k : CacheKey)
    : let after := ((addFile parser p s (found parser c s)).run d).2.entries[k]?
      after = d.entries[k]? ∨ ∃ payload, after = some payload ∧ KeptAs parser sources k payload := by
  intro after
  cases next : recheck parser p.registry s (found parser c s) with
  | snapshot snapshot =>
    refine .inl ?_
    simp only [after, addFile, next]
    rfl
  | failed =>
    refine .inl ?_
    simp only [after, addFile, next]
    rfl
  | file file =>
    have kept : after = ((keep s (file.bind s.fingerprint p.registry).1
        (file.bind s.fingerprint p.registry).2).run d).2.entries[k]? := by
      simp only [after, addFile, next]
      rfl
    rw [kept]
    unfold keep
    split
    · rename_i clean
      have stored := d.entries_storeJson (unitKey s) (Snapshot.collect
        (file.bind s.fingerprint p.registry).1 (file.bind s.fingerprint p.registry).2).toJson k
      change (StateT.run (Cache.storeJson _ _) d).2.entries[k]? = _ ∨ ∃ payload,
        (StateT.run (Cache.storeJson _ _) d).2.entries[k]? = some payload ∧ _
      rw [stored]
      split
      · rename_i own
        exact .inr ⟨_, rfl, s, member, own.symm, file, p.registry, parsed_of_recheck next,
          List.isEmpty_iff.mp clean, rfl⟩
      · exact .inl rfl
    · exact .inl rfl

theorem addFiles_entries (p : Progress) {used : List InputFile} (sub : used ⊆ sources)
    (d : MemoryCache) (k : CacheKey)
    : let after := ((addFiles parser p (used.map fun s => (s, found parser c s))).run d).2.entries[k]?
      after = d.entries[k]? ∨ ∃ payload, after = some payload ∧ KeptAs parser sources k payload := by
  induction used generalizing p d with
  | nil => exact .inl rfl
  | cons s used ih =>
    have first := addFile_entries parser c p (sub List.mem_cons_self) d k
    rcases ih _ (fun t later => sub (List.mem_cons_of_mem s later)) _ with same | new
    · rcases first with same' | new'
      · exact .inl (same.trans same')
      · obtain ⟨payload, here, kept⟩ := new'
        exact .inr ⟨payload, same.trans here, kept⟩
    · exact .inr new

end Run

/-- A run takes every entry that cannot be read for one that is not there: it returns what it returns
if these entries are deleted before. The unreadable entries of its files are gone after it, or have been
replaced by what the files are kept as. -/
theorem corrupt_entries_absent (parser : Parser) (kinds : List AnalyzerKind) (sources : List InputFile)
    (c : MemoryCache)
    : ((run parser kinds sources).run c).1 = ((run parser kinds sources).run c.withoutCorrupt).1
      ∧ ∀ s ∈ sources, ∀ payload, c.entries[Run.unitKey s]? = some payload
        → MemoryCache.isReadable (Run.unitKey s) payload = false
        → let after := ((run parser kinds sources).run c).2.entries[Run.unitKey s]?
          after = none ∨ ∃ new, after = some new ∧ Run.KeptAs parser sources (Run.unitKey s) new := by
  constructor
  · obtain ⟨built, caches⟩ := Indifferent.buildUnits parser sources _ _ c.interchangeable_withoutCorrupt
    rw [run_run, run_run]
    dsimp only
    rw [← built]
    exact Analyzer.returned_interchangeable caches _ kinds
  · intro s member payload entry unreadable after
    have corrupt : c.value? (Snapshot.ofJson? .ofText) (Run.unitKey s) = none := by
      have tag : (Run.unitKey s).tag = "ast" := rfl
      rw [MemoryCache.value?, entry, Option.bind_some]
      simpa [MemoryCache.isReadable, tag] using unreadable
    have dropped := Run.prepareAll_drops parser member corrupt
    have built : after = ((Run.buildUnits parser sources).run c).2.entries[Run.unitKey s]? := by
      simp only [after, run_run]
      exact Analyzer.entries_run _ _ _ _ (by simp [Run.unitKey])
    have added := Run.addFiles_entries parser c {} (List.Subset.refl sources)
      ((sources.mapM (Run.prepare parser)).run c).2 (Run.unitKey s)
    rw [dropped, List.map_prod_left_eq_zip, ← (Run.run_prepareAll parser c sources).1] at added
    rw [built]
    exact added

def oneFunction : Parser := fun s =>
  some ⟨s.path, [.functionDecl ⟨s.path, [], none, [], [], ⟨1, 1⟩⟩]⟩

def keptSource : InputFile := ⟨"f", "".toUTF8⟩

def lostSource : InputFile := ⟨"g", "".toUTF8⟩

def damagedCache : MemoryCache :=
  let c := ((run oneFunction [.complexity] [keptSource]).run ({} : MemoryCache)).2
  let records := c.entries.map fun k payload => if k.tag = "ccn" then "?".toUTF8 else payload
  ⟨records.insert (Run.unitKey lostSource) "?".toUTF8⟩

/-- The first file is restored and its function is counted again; the second file is parsed and kept
anew. -/
theorem corrupt_entries_absent_damaged
    : damagedCache.entries[Run.unitKey lostSource]? = some "?".toUTF8
      ∧ MemoryCache.isReadable (Run.unitKey lostSource) "?".toUTF8 = false
      ∧ (((run oneFunction [.complexity] [keptSource, lostSource]).run damagedCache).1.toOption.map
        fun r => (r.restored, r.parsed)) = some (1, 1)
      ∧ ((run oneFunction [.complexity] [keptSource, lostSource]).run damagedCache).1
        = ((run oneFunction [.complexity] [keptSource, lostSource]).run damagedCache.withoutCorrupt).1
      ∧ ∃ new, ((run oneFunction [.complexity] [keptSource, lostSource]).run
          damagedCache).2.entries[Run.unitKey lostSource]? = some new
        ∧ Run.KeptAs oneFunction [keptSource, lostSource] (Run.unitKey lostSource) new := by
  obtain ⟨same, replaced⟩ :=
    corrupt_entries_absent oneFunction [.complexity] [keptSource, lostSource] damagedCache
  have entry : damagedCache.entries[Run.unitKey lostSource]? = some "?".toUTF8 := by
    simp only [damagedCache, Std.TreeMap.getElem?_insert_self]
  have unreadable : MemoryCache.isReadable (Run.unitKey lostSource) "?".toUTF8 = false := by
    decide +kernel
  obtain ⟨counts, there⟩ :
      (((run oneFunction [.complexity] [keptSource, lostSource]).run damagedCache).1.toOption.map
        fun r => (r.restored, r.parsed)) = some (1, 1)
      ∧ ((run oneFunction [.complexity] [keptSource, lostSource]).run
          damagedCache).2.entries[Run.unitKey lostSource]? ≠ none := by decide +kernel
  refine ⟨entry, unreadable, counts, same, ?_⟩
  exact (replaced lostSource (by simp) _ entry unreadable).resolve_left there

end DesignMetrics
