import DesignMetrics.Proofs.Run.Entries

/-! Runs that share a cache tell what runs without a cache tell.
A run finds in the cache only what it would have come to itself, as long as no class is called like an
interface and no type name has a colon.
-/

namespace DesignMetrics

open Digest List

variable {κ : Type} [CacheStore κ]

-- Files on their way to units

/-- What a file may be prepared as. -/
inductive Ready (parser : Parser) (s : InputFile) : Run.Prepared → Prop
  | parsed : Ready parser s (Run.parse parser s)
  | restored {file : SourceFile} (parsed : parser s = some file)
      (clean : (file.draft []).shadowed = [])
    : Ready parser s (.snapshot (file.snapshot s.fingerprint))

/-- How a file adds a unit to a registry, if it can be parsed. -/
inductive Joins (parser : Parser) (s : InputFile) (r : Registry)
    : List CompilationUnit → Registry → Prop
  | failed (none : parser s = none) : Joins parser s r [] r
  | bound {file : SourceFile} (parsed : parser s = some file)
    : Joins parser s r [(file.bind s.fingerprint r).1] (file.bind s.fingerprint r).2
  | attached {file : SourceFile} (parsed : parser s = some file)
      (clean : (file.draft []).shadowed = [])
      (free : (file.snapshot s.fingerprint).conflicts r = false)
    : Joins parser s r [(file.snapshot s.fingerprint).unit] ((file.snapshot s.fingerprint).attach r)

variable {s : InputFile} {parser : Parser} {used : List InputFile} {c : κ}

/-- A file that was parsed is not parsed again. -/
theorem Run.recheck_parse (parser : Parser) (r : Registry) (s : InputFile)
    : recheck parser r s (parse parser s) = parse parser s := by
  unfold parse
  cases parser s <;> rfl

/-- A file is parsed unless it comes from the cache and does not conflict with what is there. -/
theorem Ready.recheck_cases {prepared : Run.Prepared} (h : Ready parser s prepared) (r : Registry)
    : Run.recheck parser r s prepared = Run.parse parser s
      ∨ ∃ file, parser s = some file ∧ (file.draft []).shadowed = []
        ∧ (file.snapshot s.fingerprint).conflicts r = false
        ∧ Run.recheck parser r s prepared = .snapshot (file.snapshot s.fingerprint) := by
  cases h with
  | parsed => exact .inl (Run.recheck_parse parser r s)
  | @restored file parsed clean =>
    unfold Run.recheck
    cases conflict : (file.snapshot s.fingerprint).conflicts r with
    | true => exact .inl (by simp [conflict])
    | false => exact .inr ⟨file, parsed, clean, conflict, by simp [conflict]⟩

/-- How files add their units to a registry, one after the other. -/
inductive JoinsAll (parser : Parser)
    : List InputFile → Registry → List CompilationUnit → Registry → Prop
  | done (r : Registry) : JoinsAll parser [] r [] r
  | next {s : InputFile} {rest : List InputFile} {r r' r'' : Registry}
      {units later : List CompilationUnit} (first : Joins parser s r units r')
      (others : JoinsAll parser rest r' later r'')
    : JoinsAll parser (s :: rest) r (units ++ later) r''

section

variable {sources : List InputFile} {units : List CompilationUnit} {r r' : Registry}

/-- A file that joins a registry is where its nodes come from. -/
theorem Joins.grounded (h : Joins parser s r units r') (member : s ∈ sources)
    (grounded : Grounded (sources.filterMap parser) r) : Grounded (sources.filterMap parser) r' := by
  cases h with
  | failed => exact grounded
  | bound parsed => exact grounded.bind (List.mem_filterMap.mpr ⟨s, member, parsed⟩) _
  | attached parsed => exact grounded.attach (List.mem_filterMap.mpr ⟨s, member, parsed⟩) _

theorem JoinsAll.grounded (h : JoinsAll parser used r units r') (sub : used ⊆ sources)
    (grounded : Grounded (sources.filterMap parser) r) : Grounded (sources.filterMap parser) r' := by
  induction h with
  | done => exact grounded
  | next first _ ih =>
    exact ih (fun _ member => sub (List.mem_cons_of_mem _ member))
      (first.grounded (sub List.mem_cons_self) grounded)

end

def parsedFiles (parser : Parser) (sources : List InputFile) : List (SourceFile × String) :=
  sources.filterMap fun s => (parser s).map fun file => (file, s.fingerprint)

variable {entry : CacheKey → ByteArray → Prop} {start : κ}

/-- Files are parsed or taken from the cache: what holds of both holds of all prepared files. -/
theorem Run.holds_prepareAll (faithful : Faithful start) {Good : InputFile → Prepared → Prop}
    (parsed : ∀ s, Good s (parse parser s))
    (restored : ∀ s ∈ used, ∀ payload snapshot, entry (unitKey s) payload
      → (Json.parseStored? payload).bind (Snapshot.ofJson? .ofText) = some snapshot
      → Good s (.snapshot snapshot)) (holds : Holds entry start c)
    : Forall₂ Good used ((used.mapM (prepare parser)).run c).1
      ∧ Holds entry start ((used.mapM (prepare parser)).run c).2 := by
  induction used generalizing c with
  | nil => exact ⟨.nil, holds⟩
  | cons s used ih =>
    obtain ⟨kept, found⟩ := holds.restoreAs faithful (Snapshot.ofJson? .ofText) (unitKey s)
    have first : Good s ((prepare parser s).run c).1
        ∧ Holds entry start ((prepare parser s).run c).2 := by
      unfold prepare
      rw [StateT.run_bind]
      generalize (Cache.restoreAs (Snapshot.ofJson? .ofText) (unitKey s)).run c = outcome at kept found
      obtain ⟨snapshot, after⟩ := outcome
      cases snapshot with
      | none => exact ⟨parsed s, kept⟩
      | some snapshot =>
        obtain ⟨payload, stored, value⟩ := found snapshot rfl
        exact ⟨restored s List.mem_cons_self payload snapshot stored value, kept⟩
    obtain ⟨others, last⟩ := ih (fun t member => restored t (List.mem_cons_of_mem s member)) first.2
    rw [List.mapM_cons]
    exact ⟨.cons first.1 others, last⟩

/-- A unit in which nothing is shadowed is kept as the snapshot of its file, whatever was registered
before. -/
theorem Run.holds_keep {known : List NodeId} {r : Registry} (tracks : Tracks known r)
    (holds : Holds entry start c) {file : SourceFile} (kept : (file.draft []).shadowed = []
      → entry (unitKey s) (file.snapshot s.fingerprint).toJson.text)
    : Holds entry start
        ((keep s (file.bind s.fingerprint r).1 (file.bind s.fingerprint r).2).run c).2 := by
  unfold keep
  split
  · rename_i clean
    obtain ⟨steady, collected⟩ :=
      file.collect_bind tracks s.fingerprint (List.isEmpty_iff.mp clean)
    rw [collected]
    exact holds.storeJson (kept steady)
  · exact holds

section

variable {sources : List InputFile}
variable (shareable : Shareable parser sources) (faithful : Faithful start)

namespace Run

section

include shareable faithful

/-- A file that is taken from the cache is its snapshot. -/
theorem ready_prepareAll (sub : used ⊆ sources) (holds : Holds (Entry parser sources) start c)
    : Forall₂ (Ready parser) used ((used.mapM (prepare parser)).run c).1
      ∧ Holds (Entry parser sources) start ((used.mapM (prepare parser)).run c).2 := by
  refine holds_prepareAll faithful (fun _ => .parsed) (fun s member _ snapshot stored value => ?_) holds
  obtain ⟨file, parsed, clean, rfl⟩ := stored.eq_snapshot shareable (sub member)
  obtain rfl : snapshot = (file.snapshot s.fingerprint).bare := Snapshot.only_stored value
  rw [file.bare_snapshot]
  exact .restored parsed clean

end

/-- A file that has been prepared becomes a unit by being bound or attached. -/
theorem joins_addFile {p : Progress} (grounded : Grounded (sources.filterMap parser) p.registry)
    (holds : Holds (Entry parser sources) start c) (member : s ∈ sources) {prepared : Prepared}
    (ready : Ready parser s prepared)
    : ∃ units, ((addFile parser p s prepared).run c).1.units = p.units ++ units
      ∧ Joins parser s p.registry units ((addFile parser p s prepared).run c).1.registry
      ∧ Holds (Entry parser sources) start ((addFile parser p s prepared).run c).2 := by
  rcases ready.recheck_cases p.registry with again | ⟨file, parsed, clean, free, attached⟩
  · cases parsed : parser s with
    | none =>
      simp only [addFile, again, parse, parsed]
      exact ⟨[], (List.append_nil _).symm, .failed parsed, holds⟩
    | some file =>
      simp only [addFile, again, parse, parsed]
      exact ⟨_, rfl, .bound parsed, holds_keep grounded.tracks holds (.unit member parsed)⟩
  · simp only [addFile, attached]
    exact ⟨_, rfl, .attached parsed clean free, holds⟩

theorem joinsAll_addFiles (sub : used ⊆ sources) {prepared : List Prepared}
    (ready : Forall₂ (Ready parser) used prepared) {p : Progress}
    (grounded : Grounded (sources.filterMap parser) p.registry)
    (holds : Holds (Entry parser sources) start c)
    : ∃ units, ((addFiles parser p (used.zip prepared)).run c).1.units = p.units ++ units
      ∧ JoinsAll parser used p.registry units
          ((addFiles parser p (used.zip prepared)).run c).1.registry
      ∧ Holds (Entry parser sources) start ((addFiles parser p (used.zip prepared)).run c).2 := by
  induction ready generalizing p c with
  | nil => exact ⟨[], (List.append_nil _).symm, .done _, holds⟩
  | @cons s first used rest ready _ ih =>
    have member : s ∈ sources := sub List.mem_cons_self
    obtain ⟨units, added, joins, kept⟩ := joins_addFile grounded holds member ready
    obtain ⟨later, others, joinsAll, last⟩ := ih
      (fun t member => sub (List.mem_cons_of_mem s member)) (joins.grounded member grounded) kept
    refine ⟨units ++ later, ?_, .next joins joinsAll, last⟩
    rw [← List.append_assoc, ← added]
    exact others

include shareable faithful

/-- Building units takes every file to its place in the registry. -/
theorem joinsAll_buildUnits (sub : used ⊆ sources) (holds : Holds (Entry parser sources) start c)
    : JoinsAll parser used ∅ ((buildUnits parser used).run c).1.units
          ((buildUnits parser used).run c).1.registry
      ∧ Holds (Entry parser sources) start ((buildUnits parser used).run c).2 := by
  obtain ⟨ready, kept⟩ := ready_prepareAll shareable faithful sub holds
  obtain ⟨units, all, joins, last⟩ :=
    joinsAll_addFiles (p := {}) sub ready (.empty _) kept
  obtain rfl : _ = units := all
  exact ⟨joins, last⟩

end Run

end

-- Registries with and without a cache

theorem bindAll_append (r : Registry) (files more : List (SourceFile × String))
    : bindAll r (files ++ more)
      = ((bindAll r files).1 ++ (bindAll (bindAll r files).2 more).1,
          (bindAll (bindAll r files).2 more).2) := by
  induction files generalizing r with
  | nil => rfl
  | cons file files ih => simp [bindAll, ih]

/-- What has been bound into an empty registry is what is known in it. -/
theorem Bound.tracks {files : List SourceFile} {bound : List CompilationUnit × Registry} {o : Outline}
    (h : Bound files [] ∅ bound o) : Tracks o.ids bound.2 := by
  refine Tracks.upsertAll .empty h.nodes fun n member => ?_
  rw [h.nodes] at member
  rcases mem_of_mem_upsertAll member with before | new
  · simp at before
  · obtain ⟨_, _, _, stands⟩ := h.marks.formed.origin_of_mem new
    exact stands.isUserDefined

theorem Registry.Agree.conflicts {r r' : Registry} (h : r.Agree r') (s : Snapshot)
    : s.conflicts r = s.conflicts r' := by
  simp only [Snapshot.conflicts, h.isDeclared]

section

variable {files : List SourceFile} {r r' : Registry}
variable {units : List CompilationUnit}
variable (plain : Plain files) (unbound : ∀ file ∈ files, file.Unbound)

include plain unbound

variable {before : List (SourceFile × String)}

/-- A file of a plain project joins a registry as it is bound, whether it comes from the cache or
not. -/
theorem Joins.agree (member : ∀ file, parser s = some file → file ∈ files)
    (h : Joins parser s r units r') (sub : before.map Prod.fst ⊆ files)
    (agree : r.Agree (bindAll ∅ before).2)
    : units = (bindAll (bindAll ∅ before).2 (parsedFiles parser [s])).1
      ∧ r'.Agree (bindAll (bindAll ∅ before).2 (parsedFiles parser [s])).2 := by
  obtain ⟨o, bound⟩ := bindAll_bound unbound sub Tracks.empty
  cases h with
  | failed none =>
    simp only [parsedFiles, List.filterMap_cons, none, Option.map_none, List.filterMap_nil]
    exact ⟨rfl, agree⟩
  | @bound file parsed =>
    simp only [parsedFiles, List.filterMap_cons, parsed, Option.map_some, List.filterMap_nil]
    obtain ⟨same, agree'⟩ :=
      file.bind_agree agree bound.tracks s.fingerprint
    exact ⟨by rw [same]; rfl, agree'⟩
  | @attached file parsed clean free =>
    simp only [parsedFiles, List.filterMap_cons, parsed, Option.map_some, List.filterMap_nil]
    rw [agree.conflicts] at free
    have new := plain.free_of_conflicts (member file parsed)
      ⟨bound.marks.formed.new, bound.marks.bodies⟩ bound.nodes bound.tracks free
    obtain ⟨same, agree'⟩ := file.attach_agree agree bound.tracks clean new s.fingerprint
    exact ⟨by rw [same]; rfl, agree'⟩

/-- The files of a plain project join a registry as they are bound, by induction on the files. -/
theorem JoinsAll.agree {sources : List InputFile} (member : sources.filterMap parser ⊆ files)
    (h : JoinsAll parser sources r units r') (sub : before.map Prod.fst ⊆ files)
    (agree : r.Agree (bindAll ∅ before).2)
    : units = (bindAll (bindAll ∅ before).2 (parsedFiles parser sources)).1
      ∧ r'.Agree (bindAll (bindAll ∅ before).2 (parsedFiles parser sources)).2 := by
  induction h generalizing before with
  | done r => exact ⟨rfl, agree⟩
  | @next s rest r r' r'' units later first others ih =>
    have here : ∀ file, parser s = some file → file ∈ files := fun file parsed =>
      member (List.mem_filterMap.mpr ⟨s, List.mem_cons_self, parsed⟩)
    have after : rest.filterMap parser ⊆ files := fun file inside =>
      let ⟨t, there, parsed⟩ := List.mem_filterMap.mp inside
      member (List.mem_filterMap.mpr ⟨t, List.mem_cons_of_mem s there, parsed⟩)
    obtain ⟨same, agree'⟩ := first.agree plain unbound here sub agree
    have sub' : (before ++ parsedFiles parser [s]).map Prod.fst ⊆ files := by
      intro file inside
      rw [List.map_append, List.mem_append] at inside
      rcases inside with earlier | new
      · exact sub earlier
      · cases parsed : parser s with
        | none => simp [parsedFiles, parsed] at new
        | some own =>
          obtain rfl : file = own := by simpa [parsedFiles, parsed] using new
          exact here file parsed
    have split : parsedFiles parser (s :: rest) = parsedFiles parser [s] ++ parsedFiles parser rest :=
      List.filterMap_append (l := [s])
    rw [split, bindAll_append]
    have step := ih after sub' (by rw [bindAll_append]; exact agree')
    rw [bindAll_append] at step
    exact ⟨by rw [same, step.1], step.2⟩

end

-- Runs

def Run.returned (built : Progress) (outcome : Outcome (Analyzer κ) NodeCountFault)
    : Except (TraversalFault NodeCountFault) RunResult :=
  match outcome.fault with
  | some fault => .error fault
  | none => .ok
    { units := built.units, registry := built.registry
      results := outcome.observers.map (resultOf built.registry)
      parsed := built.parsed, restored := built.restored, failed := built.failed }

/-- A run builds units and has them analyzed. -/
theorem run_run (parser : Parser) (kinds : List AnalyzerKind) (sources : List InputFile) (c : κ)
    : (run parser kinds sources).run c
      = let built := (Run.buildUnits parser sources).run c
        let analyzed := Analyzer.run built.1.registry built.1.units kinds built.2
        (Run.returned built.1 analyzed.1, analyzed.2) := by
  extract_lets built analyzed
  rw [run, StateT.run_bind]
  change StateT.run (match analyzed.1.fault with
      | some fault => pure (Except.error fault)
      | none => pure (Except.ok _)) analyzed.2 = _
  unfold Run.returned
  cases analyzed.1.fault <;> rfl

section

variable {sources : List InputFile}
variable (shareable : Shareable parser sources) (faithful : Faithful start)
variable (holds : Holds (Entry parser sources) start c) (sub : used ⊆ sources)
variable (kinds : List AnalyzerKind)

include shareable faithful holds sub

/-- A run leaves nothing but entries in the cache. -/
theorem holds_run : Holds (Entry parser sources) start ((run parser kinds used).run c).2 := by
  obtain ⟨joins, kept⟩ := Run.joinsAll_buildUnits shareable faithful sub holds
  rw [run_run]
  exact (Analyzer.run_agree (.refl _) faithful faithful kinds kept kept
    ((joins.grounded sub (.empty _)).settles shareable _)).2.2

/-- A run over a plain project tells with a cache what it tells with another one. -/
theorem run_agree {κ' : Type} [CacheStore κ'] {start' c' : κ'} (faithful' : Faithful start')
    (holds' : Holds (Entry parser sources) start' c') (plain : Plain (used.filterMap parser))
    : ((run parser kinds used).run c).1.map RunResult.results
      = ((run parser kinds used).run c').1.map RunResult.results := by
  have unbound : ∀ file ∈ used.filterMap parser, file.Unbound := fun file member =>
    let ⟨s, inside, parsed⟩ := List.mem_filterMap.mp member
    shareable.unbound file (List.mem_filterMap.mpr ⟨s, sub inside, parsed⟩)
  obtain ⟨joins, kept⟩ := Run.joinsAll_buildUnits shareable faithful sub holds
  obtain ⟨joins', kept'⟩ := Run.joinsAll_buildUnits shareable faithful' sub holds'
  have empty : Registry.Agree ∅ (bindAll ∅ []).2 := .refl ∅
  obtain ⟨units, agree⟩ := joins.agree plain unbound (fun _ inside => inside) (by simp) empty
  obtain ⟨units', agree'⟩ := joins'.agree plain unbound (fun _ inside => inside) (by simp) empty
  rw [run_run, run_run]
  simp only
  rw [units'.trans units.symm]
  obtain ⟨faults, results, _⟩ := Analyzer.run_agree (agree.trans agree'.symm) faithful faithful' kinds
    kept kept' ((joins.grounded sub (.empty _)).settles shareable _)
  unfold Run.returned
  rw [faults]
  split
  · rfl
  · exact congrArg Except.ok results

end

-- Histories

def runAll (parser : Parser) (history : List (List AnalyzerKind × List InputFile))
    : StateM κ (List (Except (TraversalFault NodeCountFault) RunResult)) :=
  history.mapM fun call => run parser call.1 call.2

/-- Whether a run tells what the same run tells without a cache. -/
def Transparent (parser : Parser) (call : List AnalyzerKind × List InputFile)
    (result : Except (TraversalFault NodeCountFault) RunResult) : Prop :=
  result.map RunResult.results
    = ((run parser call.1 call.2).run NoCache.mk).1.map RunResult.results

/-- Runs keep the cache as they find it, by induction on the runs. -/
theorem transparent_runAll {sources : List InputFile} (shareable : Shareable parser sources)
    (faithful : Faithful start) {history : List (List AnalyzerKind × List InputFile)}
    (sub : ∀ call ∈ history, call.2 ⊆ sources) (holds : Holds (Entry parser sources) start c)
    : Forall₂ (fun call result => Plain (call.2.filterMap parser) → Transparent parser call result)
        history ((runAll parser history).run c).1 := by
  induction history generalizing c with
  | nil => exact .nil
  | cons call history ih =>
    have here : call.2 ⊆ sources := sub call List.mem_cons_self
    have rest := ih (fun other member => sub other (List.mem_cons_of_mem _ member))
      (holds_run shareable faithful holds here call.1)
    rw [runAll, List.mapM_cons]
    exact .cons (run_agree shareable faithful holds here call.1 NoCache.faithful (holds_start _ _)) rest

/-- In any sequence of runs that share a cache which was empty in the beginning and returns nothing but
what was stored under the key, a run over sources without a class that is called like an interface and
without a colon in a type name has the results, or the error, of the same run without a cache.
-/
theorem shared_cache_transparent {start : κ} (faithful : Faithful start) (parser : Parser)
    (history : List (List AnalyzerKind × List InputFile))
    (shareable : Shareable parser (history.flatMap Prod.snd))
    : Forall₂ (fun call result => Plain (call.2.filterMap parser) → Transparent parser call result)
        history ((runAll parser history).run start).1 :=
  transparent_runAll shareable faithful
    (fun call member _ inside => List.mem_flatMap.mpr ⟨call, member, inside⟩) (holds_start _ _)

def twoClasses : Parser := fun s =>
  if s.path = "a.php" then
    some ⟨"a.php", [.classDecl ⟨"A", .none, none, [],
      [.method ⟨"m", .isPublic, [], none, [], some [.ret none], ⟨2, 2⟩⟩], ⟨1, 3⟩⟩]⟩
  else if s.path = "b.php" then
    some ⟨"b.php", [.classDecl ⟨"B", .none, some "A", [], [], ⟨1, 1⟩⟩]⟩
  else none

def threeRuns : List (List AnalyzerKind × List InputFile) :=
  let a : InputFile := ⟨"a.php", "a".toUTF8⟩
  let b : InputFile := ⟨"b.php", "b".toUTF8⟩
  [(AnalyzerKind.all, [a, b]), ([.complexity], [b, a]), (AnalyzerKind.all, [b, a])]

/-- The second and third run find both files in the cache, and tell what they tell without it. -/
theorem shared_cache_threeRuns
    : Faithful ({} : MemoryCache) ∧ Shareable twoClasses (threeRuns.flatMap Prod.snd)
      ∧ (∀ call ∈ threeRuns, Plain (call.2.filterMap twoClasses))
      ∧ ∀ pair ∈ threeRuns.zip ((runAll twoClasses threeRuns).run ({} : MemoryCache)).1,
          Transparent twoClasses pair.1 pair.2 := by
  have hashes : Blake3.hexHash "a".toUTF8 ≠ Blake3.hexHash "b".toUTF8 := by decide +kernel
  have contents : ∀ x ∈ (threeRuns.flatMap Prod.snd).map InputFile.content,
      x = "a".toUTF8 ∨ x = "b".toUTF8 := by decide +kernel
  have texts : ∀ x ∈ declarationTexts twoClasses (threeRuns.flatMap Prod.snd),
      ∀ y ∈ declarationTexts twoClasses (threeRuns.flatMap Prod.snd), x = y := by decide +kernel
  have shareable : Shareable twoClasses (threeRuns.flatMap Prod.snd) := {
    unbound := by decide +kernel
    contents := fun x left y right same => by
      rcases contents x left with rfl | rfl <;> rcases contents y right with rfl | rfl
      · rfl
      · exact absurd same hashes
      · exact absurd same.symm hashes
      · rfl
    declarations := fun x left y right _ => texts x left y right }
  have plain : ∀ call ∈ threeRuns, Plain (call.2.filterMap twoClasses) := by decide +kernel
  refine ⟨MemoryCache.faithful, shareable, plain, fun pair member => ?_⟩
  obtain ⟨call, result⟩ := pair
  have told := shared_cache_transparent MemoryCache.faithful twoClasses threeRuns shareable
  exact List.forall₂_zip told member (plain call (List.of_mem_zip member).1)

end DesignMetrics
