import Mathlib.Data.List.Induction
import DesignMetrics.Proofs.Cache.RoundTrip
import DesignMetrics.Proofs.Metric.Retention
import DesignMetrics.Proofs.Run.Transparency

/-! Runs that are repeated with their cache.
The first run keeps every unit in which nothing is shadowed. The second run takes exactly these units
from the cache, as far as they are not nested too deeply, and comes to the units of the first.
-/

namespace DesignMetrics

open Digest

-- Units after other units

def SourceFile.unitAfter (file : SourceFile) (known : List NodeId) (fingerprint : String)
    : CompilationUnit :=
  ⟨file.path, fingerprint, (file.draft known).value, (file.draft known).outline.ids,
    (file.draft known).shadowed⟩

def unitsAfter (parser : Parser) : List NodeId → List InputFile → List (InputFile × CompilationUnit)
  | _, [] => []
  | known, s :: rest =>
    match parser s with
    | none => unitsAfter parser known rest
    | some file =>
      (s, file.unitAfter known s.fingerprint)
        :: unitsAfter parser (known ++ (file.draft known).outline.ids) rest

def knownAfter (parser : Parser) (known : List NodeId) (before : List InputFile) : List NodeId :=
  known ++ (unitsAfter parser known before).flatMap fun f => f.2.declared

variable {sources : List InputFile} {s : InputFile} {u : CompilationUnit}
  {outcome : Outcome (Analyzer κ) NodeCountFault}

section

variable {parser : Parser} {known : List NodeId}

theorem unitsAfter_append (before after : List InputFile)
    : unitsAfter parser known (before ++ after)
      = unitsAfter parser known before
        ++ unitsAfter parser (knownAfter parser known before) after := by
  induction before generalizing known with
  | nil => simp [unitsAfter, knownAfter]
  | cons s before ih =>
    cases parsed : parser s with
    | none => simp [unitsAfter, knownAfter, parsed, ih]
    | some file => simp [unitsAfter, knownAfter, parsed, ih, SourceFile.unitAfter]

theorem knownAfter_append (before after : List InputFile)
    : knownAfter parser known (before ++ after)
      = knownAfter parser (knownAfter parser known before) after := by
  simp [knownAfter, unitsAfter_append]

/-- A unit stands where its source stands. -/
theorem exists_of_mem_unitsAfter (h : (s, u) ∈ unitsAfter parser known sources)
    : ∃ before after file, sources = before ++ s :: after ∧ parser s = some file
      ∧ u = file.unitAfter (knownAfter parser known before) s.fingerprint := by
  induction sources generalizing known with
  | nil => simp [unitsAfter] at h
  | cons t sources ih =>
    cases parsed : parser t with
    | none =>
      simp only [unitsAfter, parsed] at h
      obtain ⟨before, after, file, rfl, own, rfl⟩ := ih h
      exact ⟨t :: before, after, file, rfl, own, by simp [knownAfter, unitsAfter, parsed]⟩
    | some file =>
      simp only [unitsAfter, parsed, List.mem_cons, Prod.mk.injEq] at h
      rcases h with ⟨rfl, rfl⟩ | later
      · exact ⟨[], sources, file, rfl, parsed, by simp [knownAfter, unitsAfter]⟩
      · obtain ⟨before, after, other, rfl, own, rfl⟩ := ih later
        exact ⟨t :: before, after, other, rfl, own,
          by simp [knownAfter, unitsAfter, parsed, SourceFile.unitAfter]⟩

/-- Sources that can be parsed are paired with their units. -/
theorem zip_unitsAfter (before after : List InputFile)
    : (before.filter fun s => (parser s).isSome).zip
        ((unitsAfter parser known (before ++ after)).map Prod.snd)
      = unitsAfter parser known before := by
  induction before generalizing known with
  | nil => rfl
  | cons s before ih =>
    cases parsed : parser s with
    | none =>
      rw [List.filter_cons_of_neg (by simp [parsed])]
      simpa only [List.cons_append, unitsAfter, parsed] using ih
    | some file =>
      rw [List.filter_cons_of_pos (by simp [parsed])]
      simp only [List.cons_append, unitsAfter, parsed, List.map_cons, List.zip_cons_cons, ih]

theorem known_subset_knownAfter (before : List InputFile) : known ⊆ knownAfter parser known before :=
  List.subset_append_left _ _

@[simp] theorem knownAfter_nil : knownAfter parser known [] = known := List.append_nil _

/-- A source that can be parsed makes its declarations known. -/
theorem knownAfter_cons {file : SourceFile} (parsed : parser s = some file) (rest : List InputFile)
    : knownAfter parser known (s :: rest)
      = knownAfter parser (known ++ (file.draft known).outline.ids) rest := by
  simp [knownAfter, unitsAfter, parsed, SourceFile.unitAfter]

end

theorem Taken.mono {known more : List NodeId} {id : NodeId} (h : Taken known id) (sub : known ⊆ more)
    : Taken more id := by
  obtain ⟨other, member, alike⟩ := h
  exact ⟨other, sub member, alike⟩

/-- A file that is bound without shadowing in one place is bound so wherever its types and functions
are free: before this place all that it declares is free, and after it nothing is. -/
theorem SourceFile.clean_of_free {parser : Parser} {before after : List InputFile} {file : SourceFile}
    (parsed : parser s = some file) (here : sources = before ++ s :: after)
    (other : (s, u) ∈ unitsAfter parser [] sources) (clean : u.shadowed = [])
    (free : ∀ n ∈ declarations (file.draft []).outline.nodes, Snapshot.isDeclaration n
      → ¬ Taken (knownAfter parser [] before) n.id)
    : (file.draft (knownAfter parser [] before)).shadowed = [] := by
  obtain ⟨earlier, later, own, there, parsed', rfl⟩ := exists_of_mem_unitsAfter other
  obtain rfl : file = own := Option.some.inj (parsed.symm.trans parsed')
  have same : file.draft [] = file.draft (knownAfter parser [] earlier) :=
    file.draft_eq_of_clean clean
  have quiet : (file.draft []).shadowed = [] := same ▸ clean
  have fresh := file.steady_draft.fresh (knownAfter parser [] earlier)
  rw [← same] at fresh
  rcases List.append_eq_append_iff.mp (here.symm.trans there) with
    ⟨between, rfl, rest⟩ | ⟨between, rfl, rest⟩
  · -- Nothing is known here that is not known there.
    rw [file.draft_eq_of_free quiet, quiet]
    intro n member taken
    rw [knownAfter_append] at fresh
    exact fresh n member (taken.mono (known_subset_knownAfter _))
  · cases between with
    | nil =>
      rw [List.append_nil, ← same, quiet]
    | cons t between =>
      obtain ⟨rfl, _⟩ := List.cons.inj rest
      -- All that the file declares is known here, so it declares no type and no function.
      have none : declarations (file.draft []).outline.nodes = [] := by
        by_contra some
        have new := file.newIn_draft (List.mem_singleton_self file) []
        obtain ⟨n, member, kind⟩ := new.new.exists_isDeclaration new.owned some
        refine free n member kind (taken_of_mem ?_)
        rw [knownAfter_append, knownAfter_cons parsed, ← same]
        exact known_subset_knownAfter _
          (List.mem_append_right _ (List.mem_map_of_mem (mem_declarations.mp member).1))
      rw [file.draft_eq_of_free quiet (by simp [none]), quiet]

-- What is found in the cache

def MemoryCache.nesting? (c : MemoryCache) (k : CacheKey) : Option Nat :=
  (c.entries[k]?.bind fun payload => Json.parse? payload.data.toList).map Json.depth

def Unshadowed (parser : Parser) (before : List InputFile) (s : InputFile) : Prop :=
  ∃ u, (s, u) ∈ unitsAfter parser [] before ∧ u.shadowed = []

def Kept (parser : Parser) (sources before : List InputFile) (c : MemoryCache) : Prop :=
  ∀ s ∈ sources, ∀ payload, c.entries[Run.unitKey s]? = some payload
    ↔ Unshadowed parser before s
      ∧ ∃ file, parser s = some file ∧ payload = (file.snapshot s.fingerprint).toJson.text

def reusable (c : MemoryCache) (f : InputFile × CompilationUnit) : Bool :=
  f.2.shadowed.isEmpty && (c.nesting? (Run.unitKey f.1)).any (· ≤ 127)

variable {c : MemoryCache} {κ : Type} {p : Progress}

namespace Run

section

variable (parser : Parser)

def found (c : MemoryCache) (s : InputFile) : Prepared :=
  match c.value? (Snapshot.ofJson? .ofText) (unitKey s) with
  | some snapshot => .snapshot snapshot
  | none => parse parser s

/-- A source is prepared as it is found, and its entry is dropped if it cannot be read. -/
theorem run_prepare (c : MemoryCache) (s : InputFile)
    : ((prepare parser s).run c).1 = found parser c s
      ∧ ∀ k, ((prepare parser s).run c).2.entries[k]?
        = if k = unitKey s ∧ c.value? (Snapshot.ofJson? .ofText) (unitKey s) = none then none
          else c.entries[k]? := by
  obtain ⟨value, left⟩ := c.run_restoreAs (Snapshot.ofJson? .ofText) (unitKey s)
  unfold prepare found
  rw [StateT.run_bind, ← value]
  rw [← value] at left
  generalize (Cache.restoreAs (Snapshot.ofJson? .ofText) (unitKey s)).run c = outcome at left
  obtain ⟨snapshot, after⟩ := outcome
  cases snapshot with
  | none => exact ⟨rfl, left⟩
  | some snapshot => exact ⟨rfl, left⟩

/-- Sources are prepared as they are found, and no entry is new after it. -/
theorem run_prepareAll (c : MemoryCache) (sources : List InputFile)
    : ((sources.mapM (prepare parser)).run c).1 = sources.map (found parser c)
      ∧ ∀ k : CacheKey, c.entries[k]? = none
        → ((sources.mapM (prepare parser)).run c).2.entries[k]? = none := by
  induction sources generalizing c with
  | nil => exact ⟨rfl, fun _ none => none⟩
  | cons s sources ih =>
    obtain ⟨first, left⟩ := run_prepare parser c s
    obtain ⟨others, last⟩ := ih ((prepare parser s).run c).2
    have same : found parser ((prepare parser s).run c).2 = found parser c := by
      have values (k : CacheKey) : ((prepare parser s).run c).2.value? (Snapshot.ofJson? .ofText) k
          = c.value? (Snapshot.ofJson? .ofText) k := by
        rw [MemoryCache.value?, left]
        split
        · rename_i dropped
          rw [dropped.1, dropped.2]
          rfl
        · rfl
      funext t
      rw [found, found, values]
    rw [List.mapM_cons]
    constructor
    · rw [List.map_cons, ← first, ← same, ← others]
      rfl
    · intro k none
      refine last k ?_
      rw [left, none, ite_self]

end

variable {parser : Parser} {before after : List InputFile} {file : SourceFile}

/-- A source is taken from the cache exactly if it can be reused. -/
theorem recheck_found (kept : Kept parser sources sources c) (here : sources = before ++ s :: after)
    (parsed : parser s = some file) {r : Registry} (tracks : Tracks (knownAfter parser [] before) r)
    : recheck parser r s (found parser c s)
      = if reusable c (s, file.unitAfter (knownAfter parser [] before) s.fingerprint)
        then .snapshot (file.snapshot s.fingerprint) else .file file := by
  have again : parse parser s = .file file := by rw [parse, parsed]
  have member : s ∈ sources := by simp [here]
  cases entry : c.entries[unitKey s]? with
  | none =>
    have nothing : found parser c s = .file file := by
      rw [found, MemoryCache.value?, entry]
      exact again
    simp [nothing, recheck, reusable, MemoryCache.nesting?, entry]
  | some payload =>
    obtain ⟨⟨u, other, clean⟩, own, parsed', rfl⟩ := (kept s member payload).mp entry
    obtain rfl : file = own := Option.some.inj (parsed.symm.trans parsed')
    have nesting : c.nesting? (unitKey s) = some (file.snapshot s.fingerprint).toJson.depth := by
      have parsed := (Json.parse?_discrete (file.snapshot s.fingerprint).isDiscrete_toJson).1
      rw [MemoryCache.nesting?, entry, Option.bind_some]
      exact congrArg (Option.map Json.depth) parsed
    have value : c.value? (Snapshot.ofJson? .ofText) (unitKey s)
        = if (file.snapshot s.fingerprint).toJson.depth ≤ 127 then some (file.snapshot s.fingerprint)
          else none := by
      rw [MemoryCache.value?, entry, Option.bind_some]
      have read := (file.snapshot s.fingerprint).read_stored .ofText
      rwa [file.bare_snapshot] at read
    have conflicts : (file.snapshot s.fingerprint).conflicts r
        ↔ (file.draft (knownAfter parser [] before)).shadowed ≠ [] := by
      rw [file.conflicts_iff tracks]
      constructor
      · rintro ⟨n, declared, _, taken⟩ quiet
        rw [file.draft_eq_of_clean quiet] at declared
        exact file.steady_draft.fresh _ n declared taken
      · intro shadowed
        by_contra free
        exact shadowed (file.clean_of_free parsed here other clean fun n declared kind taken =>
          free ⟨n, declared, kind, taken⟩)
    simp only [found, value, reusable, SourceFile.unitAfter, nesting, Option.any_some]
    by_cases shallow : (file.snapshot s.fingerprint).toJson.depth ≤ 127
    · by_cases quiet : (file.draft (knownAfter parser [] before)).shadowed = []
      · have free := Bool.eq_false_iff.mpr fun conflict => conflicts.mp conflict quiet
        simp [shallow, recheck, free, quiet]
      · simp [shallow, recheck, conflicts.mpr quiet, again, quiet]
    · simp [shallow, recheck, again]

-- The first run

/-- What files come to one after the other, up to the last one. -/
theorem run_addFiles_concat [CacheStore κ] (parser : Parser) (p : Progress)
    (files : List (InputFile × Prepared)) (last : InputFile × Prepared) (c : κ)
    : (addFiles parser p (files ++ [last])).run c
      = (addFile parser ((addFiles parser p files).run c).1 last.1 last.2).run
          ((addFiles parser p files).run c).2 := by
  induction files generalizing p c with
  | nil => rfl
  | cons f files ih => exact ih _ _

/-- A file that is parsed becomes the unit that it is bound to. -/
theorem addFile_of_file [CacheStore κ] {prepared : Prepared}
    (h : recheck parser p.registry s prepared = .file file) (c : κ)
    : ((addFile parser p s prepared).run c).1
      = { p with
          registry := (file.bind s.fingerprint p.registry).2
          units := p.units ++ [(file.bind s.fingerprint p.registry).1]
          parsed := p.parsed + 1 } := by
  simp only [addFile, h]
  rfl

theorem addFile_of_snapshot [CacheStore κ] {prepared : Prepared} {snapshot : Snapshot}
    (h : recheck parser p.registry s prepared = .snapshot snapshot) (c : κ)
    : ((addFile parser p s prepared).run c).1
      = { p with
          registry := snapshot.attach p.registry
          units := p.units ++ [snapshot.unit]
          restored := p.restored + 1 } := by
  simp only [addFile, h]
  rfl

/-- Whether the sources have been parsed and bound, and kept if nothing in them is shadowed. -/
structure FirstPass (parser : Parser) (sources before : List InputFile) (p : Progress)
    (c : MemoryCache) : Prop where
  tracks : Tracks (knownAfter parser [] before) p.registry
  units : p.units = (unitsAfter parser [] before).map Prod.snd
  kept : Kept parser sources before c

theorem unitsAfter_concat_of_none (parsed : parser s = none)
    : unitsAfter parser [] (before ++ [s]) = unitsAfter parser [] before := by
  simp [unitsAfter_append, unitsAfter, parsed]

theorem unitsAfter_concat (parsed : parser s = some file)
    : unitsAfter parser [] (before ++ [s])
      = unitsAfter parser [] before
        ++ [(s, file.unitAfter (knownAfter parser [] before) s.fingerprint)] := by
  simp [unitsAfter_append, unitsAfter, parsed]

theorem unshadowed_concat (parsed : parser s = some file) (t : InputFile)
    : Unshadowed parser (before ++ [s]) t
      ↔ Unshadowed parser before t
        ∨ t = s ∧ (file.draft (knownAfter parser [] before)).shadowed = [] := by
  simp only [Unshadowed, unitsAfter_concat parsed, List.mem_append, List.mem_singleton,
    Prod.mk.injEq, or_and_right, exists_or]
  refine or_congr_right ⟨?_, ?_⟩
  · rintro ⟨_, ⟨rfl, rfl⟩, clean⟩
    exact ⟨rfl, clean⟩
  · rintro ⟨rfl, clean⟩
    exact ⟨_, ⟨rfl, rfl⟩, clean⟩

section

variable (apart : Blake3.Apart (sources.map InputFile.content))

include apart

/-- A unit is kept if nothing in it is shadowed. -/
theorem kept_keep (member : s ∈ sources) (parsed : parser s = some file) {r : Registry}
    (tracks : Tracks (knownAfter parser [] before) r) (kept : Kept parser sources before c)
    : Kept parser sources (before ++ [s])
        ((keep s (file.bind s.fingerprint r).1 (file.bind s.fingerprint r).2).run c).2 := by
  have shadowed : (file.bind s.fingerprint r).1.shadowed
      = (file.draft (knownAfter parser [] before)).shadowed := by
    obtain ⟨r', ran, _⟩ := file.bind_eq tracks s.fingerprint
    rw [ran]
  intro t inside payload
  rw [unshadowed_concat parsed]
  unfold keep
  split
  · rename_i empty
    have clean := List.isEmpty_iff.mp empty
    rw [(file.collect_bind tracks s.fingerprint clean).2]
    rw [shadowed] at clean
    refine Eq.congr_left (c.entries_storeJson _ _ _) |>.trans ?_
    by_cases same : t = s
    · subst same
      rw [if_pos rfl, Option.some_inj]
      constructor
      · rintro rfl
        exact ⟨.inr ⟨rfl, clean⟩, file, parsed, rfl⟩
      · rintro ⟨_, own, parsed', rfl⟩
        rw [Option.some.inj (parsed.symm.trans parsed')]
        rfl
    · have keys : unitKey t ≠ unitKey s := fun equal => same (eq_of_unitKey apart inside member equal)
      rw [if_neg keys, kept t inside payload]
      simp [same]
  · rename_i some
    rw [shadowed, List.isEmpty_iff] at some
    simp only [some, and_false, or_false]
    exact kept t inside payload

/-- A source that is parsed is bound, and kept if nothing in it is shadowed. -/
theorem FirstPass.step (here : sources = before ++ s :: after)
    (h : FirstPass parser sources before p c)
    : FirstPass parser sources (before ++ [s]) ((addFile parser p s (parse parser s)).run c).1
        ((addFile parser p s (parse parser s)).run c).2 := by
  cases parsed : parser s with
  | none =>
    have units : unitsAfter parser [] (before ++ [s]) = _ := unitsAfter_concat_of_none parsed
    simp only [parse, parsed, addFile, recheck]
    refine ⟨?_, ?_, ?_⟩
    · rw [knownAfter, units]
      exact h.tracks
    · rw [units]
      exact h.units
    · simp only [Kept, Unshadowed, units]
      exact h.kept
  | some file =>
    have kept := kept_keep apart (by simp [here]) parsed h.tracks h.kept
    obtain ⟨r', ran, _, tracks⟩ := file.bind_eq h.tracks s.fingerprint
    simp only [parse, parsed, addFile, recheck, ran] at kept ⊢
    refine ⟨?_, ?_, kept⟩
    · rw [knownAfter_append, knownAfter_cons parsed, knownAfter_nil]
      exact tracks
    · rw [unitsAfter_concat parsed, List.map_append, ← h.units]
      rfl

/-- Sources that are not in the cache are all parsed, by induction on the sources from the end. -/
theorem firstPass_addFiles (here : sources = before ++ after)
    (empty : ∀ k : CacheKey, c.entries[k]? = none)
    : FirstPass parser sources before
        ((addFiles parser {} (before.map fun s => (s, parse parser s))).run c).1
        ((addFiles parser {} (before.map fun s => (s, parse parser s))).run c).2 := by
  induction before using List.reverseRecOn generalizing after with
  | nil =>
    refine ⟨.empty, rfl, fun s _ payload => ?_⟩
    have nothing : ((addFiles parser {} []).run c).2.entries[unitKey s]? = none := empty _
    simp [nothing, Unshadowed, unitsAfter]
  | append_singleton before s ih =>
    rw [List.map_append, List.map_singleton, run_addFiles_concat]
    exact (ih (by simpa using here)).step apart (by simpa using here)

end

-- The second run

/-- Whether sources have come from the cache as far as possible, and to the same. -/
structure SecondPass (parser : Parser) (c : MemoryCache) (before : List InputFile)
    (p p' : Progress) : Prop where
  agree : p'.registry.Agree p.registry
  units : p'.units = p.units
  failed : p'.failed = p.failed
  restored : p'.restored = (unitsAfter parser [] before).countP (reusable c)
  parsed : p'.parsed = (unitsAfter parser [] before).countP fun f => !reusable c f

/-- A source comes from the cache exactly if it can be reused, and to the same unit. -/
theorem SecondPass.step (kept : Kept parser sources sources c)
    (here : sources = before ++ s :: after) {p' : Progress}
    (tracks : Tracks (knownAfter parser [] before) p.registry) (h : SecondPass parser c before p p')
    (d d' : MemoryCache)
    : SecondPass parser c (before ++ [s]) ((addFile parser p s (parse parser s)).run d).1
        ((addFile parser p' s (found parser c s)).run d').1 := by
  cases parsed : parser s with
  | none =>
    have units : unitsAfter parser [] (before ++ [s]) = _ := unitsAfter_concat_of_none parsed
    have failed : found parser c s = .failed := by
      have entry : c.entries[unitKey s]? = none := by
        rw [Option.eq_none_iff_forall_ne_some]
        intro payload entry
        obtain ⟨_, file, parsed', _⟩ := (kept s (by simp [here]) payload).mp entry
        simp [parsed] at parsed'
      rw [found, MemoryCache.value?, entry]
      simp [parse, parsed]
    simp only [parse, parsed, failed, addFile, recheck]
    exact ⟨h.agree, h.units, congrArg (· + 1) h.failed, units ▸ h.restored, units ▸ h.parsed⟩
  | some file =>
    have again : recheck parser p.registry s (parse parser s) = .file file := by
      rw [parse, parsed]
      rfl
    have rechecked := recheck_found kept here parsed (h.agree.tracks tracks)
    rw [addFile_of_file again]
    cases reuse : reusable c (s, file.unitAfter (knownAfter parser [] before) s.fingerprint) with
    | true =>
      have quiet : (file.draft (knownAfter parser [] before)).shadowed = [] := by
        rw [reusable, Bool.and_eq_true, List.isEmpty_iff] at reuse
        exact reuse.1
      have same := file.draft_eq_of_clean quiet
      have free := file.steady_draft.fresh (knownAfter parser [] before)
      rw [← same] at free
      obtain ⟨unit, agree⟩ := file.attach_agree h.agree tracks (same ▸ quiet) free s.fingerprint
      rw [reuse, if_pos rfl] at rechecked
      rw [addFile_of_snapshot rechecked]
      refine ⟨agree, by simp [unit, h.units], h.failed, ?_, ?_⟩ <;>
        simp [unitsAfter_concat parsed, reuse, h.restored, h.parsed]
    | false =>
      obtain ⟨unit, agree⟩ := file.bind_agree h.agree tracks s.fingerprint
      rw [reuse, if_neg Bool.false_ne_true] at rechecked
      rw [addFile_of_file rechecked]
      refine ⟨agree, by simp [unit, h.units], h.failed, ?_, ?_⟩ <;>
        simp [unitsAfter_concat parsed, reuse, h.restored, h.parsed]

/-- Sources come from the cache as far as possible, by induction on the sources from the end. -/
theorem secondPass_addFiles (apart : Blake3.Apart (sources.map InputFile.content))
    (kept : Kept parser sources sources c) (here : sources = before ++ after) {e : MemoryCache}
    (empty : ∀ k : CacheKey, e.entries[k]? = none) (d : MemoryCache)
    : SecondPass parser c before
        ((addFiles parser {} (before.map fun s => (s, parse parser s))).run e).1
        ((addFiles parser {} (before.map fun s => (s, found parser c s))).run d).1 := by
  induction before using List.reverseRecOn generalizing after with
  | nil => exact ⟨.refl _, rfl, rfl, rfl, rfl⟩
  | append_singleton before s ih =>
    have rest : sources = before ++ s :: after := by simpa using here
    have first : FirstPass parser sources before _ _ := firstPass_addFiles apart rest empty
    simp only [List.map_append, List.map_singleton, run_addFiles_concat]
    exact (ih rest).step kept rest first.tracks _ _

def progressAfter {κ : Type} [CacheStore κ] (parser : Parser) (sources : List InputFile) (n : Nat)
    : StateM κ Progress := do
  let prepared ← sources.mapM (prepare parser)
  addFiles parser {} ((sources.zip prepared).take n)

theorem progressAfter_length [CacheStore κ] (parser : Parser) (sources : List InputFile)
    : progressAfter parser sources sources.length = (buildUnits parser sources : StateM κ Progress) := by
  have all (prepared : List Prepared)
      : (sources.zip prepared).take sources.length = sources.zip prepared :=
    List.take_of_length_le (by rw [List.length_zip]; exact Nat.min_le_left _ _)
  simp only [progressAfter, buildUnits, all]

/-- A run goes on from what it has found in the cache. -/
theorem run_progressAfter (parser : Parser) (sources : List InputFile) (n : Nat) (c : MemoryCache)
    : ∃ d : MemoryCache, (∀ k : CacheKey, c.entries[k]? = none → d.entries[k]? = none)
      ∧ (progressAfter parser sources n).run c
        = (addFiles parser {} ((sources.take n).map fun s => (s, found parser c s))).run d := by
  obtain ⟨prepared, empty⟩ := run_prepareAll parser c sources
  refine ⟨((sources.mapM (prepare parser)).run c).2, empty, ?_⟩
  rw [progressAfter, StateT.run_bind]
  change (addFiles parser {} ((sources.zip ((sources.mapM (prepare parser)).run c).1).take n)).run _ = _
  rw [prepared, ← List.map_prod_left_eq_zip, List.map_take]

/-- A run without entries parses all sources. -/
theorem run_progressAfter_empty (parser : Parser) (sources : List InputFile) (n : Nat)
    : ∃ d : MemoryCache, (∀ k : CacheKey, d.entries[k]? = none)
      ∧ (progressAfter parser sources n).run ({} : MemoryCache)
        = (addFiles parser {} ((sources.take n).map fun s => (s, parse parser s))).run d := by
  obtain ⟨d, empty, ran⟩ := run_progressAfter parser sources n {}
  exact ⟨d, fun k => empty k (by simp), ran⟩

section

variable (apart : Blake3.Apart (sources.map InputFile.content)) (n : Nat)

include apart

theorem firstPass_progressAfter
    : FirstPass parser sources (sources.take n)
        ((progressAfter parser sources n).run ({} : MemoryCache)).1
        ((progressAfter parser sources n).run ({} : MemoryCache)).2 := by
  obtain ⟨d, empty, ran⟩ := run_progressAfter_empty parser sources n
  rw [ran]
  exact firstPass_addFiles apart (List.take_append_drop n sources).symm empty

theorem secondPass_progressAfter (kept : Kept parser sources sources c)
    : SecondPass parser c (sources.take n)
        ((progressAfter parser sources n).run ({} : MemoryCache)).1
        ((progressAfter parser sources n).run c).1 := by
  obtain ⟨d, empty, ran⟩ := run_progressAfter_empty parser sources n
  obtain ⟨d', _, ran'⟩ := run_progressAfter parser sources n c
  rw [ran, ran']
  exact secondPass_addFiles apart kept (List.take_append_drop n sources).symm empty d'

end

end Run

-- Analyzers

namespace Analyzer

variable {r r' : Registry} (agree : r.Agree r') (units : List CompilationUnit) (kinds : List AnalyzerKind)

include agree

/-- Analyzers over the same units end alike in registries that agree, whatever their caches hold. -/
theorem fault_agree {κ' : Type} [CacheStore κ] [CacheStore κ'] (c : κ) (c' : κ')
    : (run r units kinds c).1.fault = (run r' units kinds c').1.fault := by
  let related (_ : List Event) (_ : Complexity κ) (_ : Complexity κ') : Prop := True
  have sim : Traversal.Simulates r r' (Same related) := simulates agree fun _ _ => trivial
  exact (Traversal.follow_alongside sim (Walk.bare_units agree units) (same_start trivial kinds)).1

omit agree in
/-- Analyzers leave everything in the cache as it was, complexities apart. -/
theorem entries_run (r : Registry) (c : MemoryCache) {k : CacheKey} (other : k.tag ≠ "ccn")
    : (run r units kinds c).2.entries[k]? = c.entries[k]? := by
  refine run_retains (K := fun own => own.tag = "ccn")
    (P := fun left : MemoryCache => left.entries[k]? = c.entries[k]?) ⟨?_, ?_⟩ (fun _ _ _ _ => rfl) kinds
    rfl
  · intro own d tag same
    have apart : k ≠ own := fun equal => other (equal ▸ tag)
    rw [(d.run_restoreAs _ _).2, if_neg fun both => apart both.1, same]
  · intro own value d tag same
    have apart : k ≠ own := fun equal => other (equal ▸ tag)
    rw [d.entries_storeJson, if_neg apart, same]

end Analyzer

-- Runs that are repeated

theorem Run.returned_ok {result : RunResult} (h : returned p outcome = .ok result)
    : outcome.fault = none ∧ result.units = p.units ∧ result.failed = p.failed
      ∧ result.restored = p.restored ∧ result.parsed = p.parsed := by
  unfold returned at h
  split at h
  · simp at h
  · rename_i fine
    obtain rfl := Except.ok.inj h
    exact ⟨fine, rfl, rfl, rfl, rfl⟩

theorem Run.exists_returned (fine : outcome.fault = none) (p : Progress)
    : ∃ result, returned p outcome = .ok result := by
  simp [returned, fine]

def RunResult.unitsOf (r : RunResult) (parser : Parser) (sources : List InputFile)
    : List (InputFile × CompilationUnit) :=
  (sources.filter fun s => (parser s).isSome).zip r.units

/-- What is bound without shadowing has been stored. -/
theorem Kept.exists_stored {parser : Parser} (kept : Kept parser sources sources c)
    (member : (s, u) ∈ unitsAfter parser [] sources) (clean : u.shadowed = [])
    : ∃ stored : Snapshot, stored.unit = u
      ∧ c.entries[Run.unitKey s]? = some stored.toJson.text := by
  obtain ⟨before, after, file, rfl, parsed, rfl⟩ := exists_of_mem_unitsAfter member
  have entry := (kept s (by simp) _).mpr ⟨⟨_, member, clean⟩, file, parsed, rfl⟩
  refine ⟨file.snapshot s.fingerprint, ?_, entry⟩
  have quiet : (file.draft (knownAfter parser [] before)).shadowed = [] := clean
  simp only [SourceFile.snapshot, SourceFile.unitAfter, file.draft_eq_of_clean quiet, quiet]

/-- The second of two runs with one cache, which is empty before the first, comes to the same units. It
takes a file from the cache exactly if its unit had no shadowed declaration and its snapshot, which the
first run has stored, is nested at most 127 deep. -/
theorem second_run_reuses (parser : Parser) (kinds : List AnalyzerKind) (sources : List InputFile)
    (apart : Blake3.Apart (sources.map InputFile.content)) {first : RunResult} {c : MemoryCache}
    (succeeds : (run parser kinds sources).run ({} : MemoryCache) = (.ok first, c))
    : (first.unitsOf parser sources).map Prod.snd = first.units
      ∧ (∀ f ∈ first.unitsOf parser sources, f.2.fingerprint = f.1.fingerprint
        ∧ (f.2.shadowed = [] → ∃ stored : Snapshot, stored.unit = f.2
          ∧ c.entries[Run.unitKey f.1]? = some stored.toJson.text))
      ∧ (∀ n, ((Run.progressAfter parser sources n).run c).1.restored
            = (first.unitsOf parser (sources.take n)).countP (reusable c)
          ∧ ((Run.progressAfter parser sources n).run c).1.parsed
            = (first.unitsOf parser (sources.take n)).countP fun f => !reusable c f)
      ∧ ∃ second, ((run parser kinds sources).run c).1 = .ok second
        ∧ second.units = first.units
        ∧ second.restored = (first.unitsOf parser sources).countP (reusable c)
        ∧ second.parsed = (first.unitsOf parser sources).countP (fun f => !reusable c f)
        ∧ second.failed = first.failed := by
  have built : Run.progressAfter parser sources sources.length
      = (Run.buildUnits parser sources : StateM MemoryCache _) := Run.progressAfter_length parser sources
  have firstPass : Run.FirstPass parser sources _ _ _ := Run.firstPass_progressAfter apart sources.length
  rw [built, List.take_length] at firstPass
  rw [run_run] at succeeds
  obtain ⟨returned, left⟩ := Prod.mk.inj succeeds
  obtain ⟨fine, units, failed, _, _⟩ := Run.returned_ok returned
  have kept : Kept parser sources sources c := by
    intro s member payload
    have tag : (Run.unitKey s).tag ≠ "ccn" := by simp [Run.unitKey]
    rw [← left, Analyzer.entries_run _ _ _ _ tag]
    exact firstPass.kept s member payload
  have pairs (n : Nat) : first.unitsOf parser (sources.take n) = unitsAfter parser [] (sources.take n) := by
    have zipped : _ = unitsAfter parser [] _ := zip_unitsAfter (sources.take n) (sources.drop n)
    rwa [List.take_append_drop, ← firstPass.units, ← units] at zipped
  have secondPass (n : Nat) := Run.secondPass_progressAfter apart n kept
  have all := pairs sources.length
  have whole := secondPass sources.length
  rw [built] at whole
  rw [List.take_length] at all whole
  refine ⟨?_, ?_, fun n => ?_, ?_⟩
  · rw [all, units, firstPass.units]
  · rintro ⟨s, u⟩ member
    rw [all] at member
    refine ⟨?_, kept.exists_stored member⟩
    obtain ⟨_, _, _, _, _, rfl⟩ := exists_of_mem_unitsAfter member
    rfl
  · rw [(secondPass n).restored, (secondPass n).parsed, pairs]
    exact ⟨rfl, rfl⟩
  · have fine' := (Analyzer.fault_agree whole.agree _ kinds
      ((Run.buildUnits parser sources).run c).2 _).trans fine
    rw [← whole.units] at fine'
    obtain ⟨second, ended⟩ := Run.exists_returned fine' ((Run.buildUnits parser sources).run c).1
    obtain ⟨_, units', failed', restored, parsed⟩ := Run.returned_ok ended
    refine ⟨second, ?_, ?_, ?_, ?_, ?_⟩
    · rw [run_run]
      exact ended
    · rw [units', whole.units, units]
    · rw [restored, whole.restored, all]
    · rw [parsed, whole.parsed, all]
    · rw [failed', whole.failed, failed]

def oneClass : Parser := fun s => some ⟨s.path, [.classDecl ⟨"A", .none, none, [], [], ⟨1, 1⟩⟩]⟩

def fileTwice : List InputFile := [⟨"a.php", "a".toUTF8⟩, ⟨"a.php", "a".toUTF8⟩]

/-- The class is shadowed the second time, so one of the two comes from the cache. -/
theorem second_run_reuses_fileTwice
    : ∃ first c second, Blake3.Apart (fileTwice.map InputFile.content)
      ∧ (run oneClass AnalyzerKind.all fileTwice).run ({} : MemoryCache) = (.ok first, c)
      ∧ ((run oneClass AnalyzerKind.all fileTwice).run c).1 = .ok second
      ∧ second.units = first.units ∧ second.restored = 1 ∧ second.parsed = 1 := by
  have apart : Blake3.Apart (fileTwice.map InputFile.content) := by
    intro x left y right _
    have only : ∀ z ∈ fileTwice.map InputFile.content, z = "a".toUTF8 := by simp [fileTwice]
    rw [only x left, only y right]
  obtain ⟨outcome, c, ran⟩ : ∃ outcome c,
      (run oneClass AnalyzerKind.all fileTwice).run ({} : MemoryCache) = (outcome, c) := ⟨_, _, rfl⟩
  have reused : outcome.toOption.map (fun first =>
      (first.unitsOf oneClass fileTwice).map (reusable c)) = some [true, false] := by
    obtain ⟨rfl, rfl⟩ := Prod.mk.inj ran
    decide +kernel
  cases outcome with
  | error fault => simp [Except.toOption] at reused
  | ok first =>
    obtain ⟨_, _, _, second, ran', units, restored, parsed, _⟩ :=
      second_run_reuses oneClass AnalyzerKind.all fileTwice apart ran
    have flags : (first.unitsOf oneClass fileTwice).map (reusable c) = [true, false] :=
      Option.some.inj reused
    have counted (p : Bool → Bool)
        : (first.unitsOf oneClass fileTwice).countP (fun f => p (reusable c f))
          = [true, false].countP p := by
      rw [← flags, List.countP_map]
      rfl
    refine ⟨first, c, second, apart, ran, ran', units, ?_, ?_⟩
    · rw [restored]
      exact counted id
    · rw [parsed]
      exact counted not

end DesignMetrics
