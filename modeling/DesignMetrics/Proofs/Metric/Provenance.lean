import DesignMetrics.Proofs.Metric.Retention
import DesignMetrics.Proofs.Run.Transparency

/-! What the record of a callable was counted for.
The text of a declaration determines it, and so does its fingerprint if hashes tell texts apart. The
key of a record determines the identifier and the fingerprint, so a record that is found was stored for
the same declaration.
-/

namespace DesignMetrics

open Digest

/-- What is declared by a callable. -/
inductive CallableDecl where
  | method (d : MethodDecl)
  | function (d : FunctionDecl)

instance : Inhabited CallableDecl := ⟨.function ⟨"", [], none, [], [], ⟨0, 0⟩⟩⟩

variable {d d' : CallableDecl}

namespace CallableDecl

def toJson : CallableDecl → Json
  | method d => d.toJson
  | function d => d.toJson

def fingerprint : CallableDecl → String
  | method d => d.fingerprint
  | function d => d.fingerprint

theorem fingerprint_eq (d : CallableDecl) : d.fingerprint = Blake3.hexHash d.toJson.text := by
  cases d <;> rfl

/-- The text of a declaration determines it. -/
theorem eq_of_text_eq (h : d.toJson.text = d'.toJson.text) : d = d' := by
  cases d with
  | method d =>
    cases d' with
    | method d' => rw [MethodDecl.eq_of_text_eq h]
    | function d' => exact absurd h MethodDecl.text_ne
  | function d =>
    cases d' with
    | method d' => exact absurd h.symm MethodDecl.text_ne
    | function d' => rw [FunctionDecl.eq_of_text_eq h]

/-- Whether hashes tell declarations apart. -/
def Apart (decls : List CallableDecl) : Prop := Blake3.Apart (decls.map fun d => d.toJson.text)

theorem Apart.eq_of_fingerprint {decls : List CallableDecl} (apart : Apart decls) (left : d ∈ decls)
    (right : d' ∈ decls) (h : d.fingerprint = d'.fingerprint) : d = d' := by
  rw [fingerprint_eq, fingerprint_eq] at h
  exact eq_of_text_eq (apart _ (List.mem_map_of_mem left) _ (List.mem_map_of_mem right) h)

theorem apart_pair (h : d.fingerprint ≠ d'.fingerprint) : Apart [d, d'] := by
  rw [fingerprint_eq, fingerprint_eq] at h
  simp [Apart, Blake3.Apart, h, h.symm]

/-- Whether a declaration is a member of a class or interface, or a function, in a part of a file. -/
def IsIn (p : Part) : CallableDecl → Prop
  | method d => ∃ scope members, p.scope? = some (scope, members) ∧ .method d ∈ members
  | function d => p = .stmt (.functionDecl d)

end CallableDecl

/-- A node that can be called has the fingerprint of its declaration. -/
theorem Stands.exists_decl {path : String} {p : Part} {n : Node} (h : Stands path p n)
    {callable : Callable} (named : Callable.ofVisit? n.visit = some callable)
    : ∃ d : CallableDecl, d.IsIn p ∧ callable.fingerprint = d.fingerprint := by
  cases h with
  | function d =>
    obtain rfl := Option.some.inj named
    exact ⟨.function d, rfl, rfl⟩
  | @method _ _ _ d declares member =>
    obtain rfl := Option.some.inj named
    exact ⟨.method d, ⟨_, _, declares, member⟩, rfl⟩
  | _ => simp [Node.visit, Callable.ofVisit?] at named

/-- Callables with one key have one identifier and one fingerprint. -/
theorem Callable.eq_of_cacheKey {c c' : Callable} (left : c.fingerprint = d.fingerprint)
    (right : c'.fingerprint = d'.fingerprint) (h : c.cacheKey = c'.cacheKey)
    : c.id = c'.id ∧ d.fingerprint = d'.fingerprint := by
  have keys := congrArg CacheKey.key h
  simp only [cacheKey, left, right, d.fingerprint_eq, d'.fingerprint_eq] at keys
  obtain ⟨ids, hashes⟩ := Blake3.eq_of_keys keys
  refine ⟨?_, by rw [d.fingerprint_eq, d'.fingerprint_eq, hashes]⟩
  cases left : c.id
  cases right : c'.id
  simpa [left, right] using ids

/-- A record, and what it was counted for. -/
structure CountedRecord where
  id : NodeId
  decl : CallableDecl
  record : ComplexityRecord

namespace CountedRecord

def entry (k : CountedRecord) : CacheKey × ByteArray :=
  ((Callable.mk k.id k.decl.fingerprint false).cacheKey, k.record.payload)

/-- Whether a payload, if it is under the key of a record, was stored for one of the records. -/
def Accounts (records : List CountedRecord) (key : CacheKey) (payload : ByteArray) : Prop :=
  key.tag = "ccn" → ∃ k ∈ records, k.entry = (key, payload)

theorem Accounts.append {records : List CountedRecord} {key : CacheKey} {payload : ByteArray}
    (h : Accounts records key payload) (new : List CountedRecord)
    : Accounts (new ++ records) key payload := by
  intro tag
  obtain ⟨k, member, stored⟩ := h tag
  exact ⟨k, List.mem_append_right new member, stored⟩

/-- Whether a record was counted for a callable that a walk enters. -/
def EnteredIn (w : Walk) (decl : Visit → CallableDecl) (k : CountedRecord) : Prop :=
  ∃ v callable, .enter v ∈ w.events ∧ Callable.ofVisit? v = some callable ∧ k.id = callable.id
    ∧ k.decl = decl v

end CountedRecord

/-- Whether a callable that is visited has the fingerprint of its declaration. -/
def Visit.Declared (decl : Visit → CallableDecl) (v : Visit) : Prop :=
  ∀ callable, Callable.ofVisit? v = some callable → callable.fingerprint = (decl v).fingerprint

/-- The callables on a walk have the fingerprints of declarations in the files that were bound or
restored. -/
theorem JoinsAll.exists_declared {parser : Parser} {sources : List InputFile}
    {units : List CompilationUnit} {r : Registry} (h : JoinsAll parser sources ∅ units r)
    : ∃ decl : Visit → CallableDecl, (Walk.units r units).Visits fun v => v.Declared decl
      ∧ ((Callable.ofVisit? v).isSome
        → ∃ path p, Sourced (sources.filterMap parser) path p ∧ (decl v).IsIn p) := by
  have each (v : Visit) (entered : .enter v ∈ (Walk.units r units).events)
      : ∃ d : CallableDecl, ∀ callable, Callable.ofVisit? v = some callable
        → callable.fingerprint = d.fingerprint
          ∧ ∃ path p, Sourced (sources.filterMap parser) path p ∧ d.IsIn p := by
    cases named : Callable.ofVisit? v with
    | none => exact ⟨default, nofun⟩
    | some callable =>
      obtain ⟨n, there, rfl⟩ := (Walk.visits_registered r _ units v entered).exists_node named
      obtain ⟨path, p, sourced, stands⟩ := h.grounded (List.Subset.refl _) (.empty _) n there
      have bare := n.visit.ofVisit?_bare
      rw [named, n.visit_bare] at bare
      obtain ⟨d, inside, same⟩ := stands.exists_decl bare
      refine ⟨d, fun _ equal => ?_⟩
      obtain rfl := Option.some.inj equal
      exact ⟨same, path, p, sourced, inside⟩
  choose! decl declared using each
  refine ⟨decl, fun v entered => ⟨fun callable named => (declared v entered callable named).1, ?_⟩⟩
  intro calls
  obtain ⟨callable, named⟩ := Option.isSome_iff_exists.mp calls
  exact (declared v entered callable named).2

open CountedRecord

section

variable {κ : Type} [CacheStore κ] {start : κ} (faithful : Faithful start)
variable {records : List CountedRecord}

include faithful

/-- A run stores records of the callables on its walk only. -/
theorem Analyzer.exists_counted {c : κ} (holds : Holds (Accounts records) start c) {r : Registry}
    {units : List CompilationUnit} {decl : Visit → CallableDecl}
    (declared : (Walk.units r units).Visits (Visit.Declared decl)) (kinds : List AnalyzerKind)
    : ∃ new : List CountedRecord, (∀ k ∈ new, k.EnteredIn (Walk.units r units) decl)
      ∧ Holds (Accounts (new ++ records)) start (run r units kinds c).2 := by
  let K (key : CacheKey) : Prop := ∃ v callable, .enter v ∈ (Walk.units r units).events
    ∧ Callable.ofVisit? v = some callable ∧ callable.cacheKey = key
  let P (c : κ) : Prop := ∃ new : List CountedRecord,
    (∀ k ∈ new, k.EnteredIn (Walk.units r units) decl) ∧ Holds (Accounts (new ++ records)) start c
  have retained : Retained K P := by
    constructor
    · rintro key c _ ⟨new, entered, holds⟩
      exact ⟨new, entered, (holds.restoreAs faithful _ key).1⟩
    · rintro _ record c ⟨v, callable, there, named, rfl⟩ ⟨new, entered, holds⟩
      let k : CountedRecord := ⟨callable.id, decl v, record⟩
      have stored : k.entry = (callable.cacheKey, record.payload) := by
        simp only [k, entry, Callable.cacheKey, declared v there callable named]
      refine ⟨k :: new, List.forall_mem_cons.mpr ⟨⟨v, callable, there, named, rfl, rfl⟩, entered⟩, ?_⟩
      refine (holds.mono fun _ _ accounts => accounts.append [k]).storeJson fun _ => ?_
      exact ⟨k, List.mem_cons_self, stored⟩
  refine run_retains retained (fun v there callable named => ⟨v, callable, there, named, rfl⟩) kinds ?_
  exact ⟨[], by simp, holds⟩

/-- A callable that is entered takes the record of its own declaration only. -/
theorem Complexity.exists_counted {c : Complexity κ} (holds : Holds (Accounts records) start c.cache)
    {callable : Callable} (apart : CallableDecl.Apart (d :: records.map decl))
    (own : callable.fingerprint = d.fingerprint) {frame : ComplexityFrame}
    (entered : (c.enterCallable callable).frames.head? = some frame) (full : frame.restored)
    : ∃ k ∈ records, k.id = callable.id ∧ k.decl = d ∧ k.record = frame.record := by
  have found : ((restored callable).run c.cache).1 = some frame.record := by
    unfold enterCallable at entered
    generalize (restored callable).run c.cache = outcome at entered ⊢
    obtain ⟨found, _⟩ := outcome
    obtain rfl := Option.some.inj entered
    obtain ⟨record, rfl⟩ := Option.isSome_iff_exists.mp full
    rfl
  have whole : ((Cache.restoreAs ComplexityRecord.ofJson? callable.cacheKey).run c.cache).1
      = some frame.record := by
    unfold restored at found
    split at found
    · exact found
    · simp at found
  obtain ⟨payload, accounts, value⟩ := (holds.restoreAs faithful _ _).2 _ whole
  obtain ⟨k, member, stored⟩ := accounts rfl
  obtain ⟨keys, rfl⟩ := Prod.mk.inj stored
  obtain ⟨ids, prints⟩ := Callable.eq_of_cacheKey rfl own keys
  have same : k.decl = d := apart.eq_of_fingerprint
    (List.mem_cons_of_mem d (List.mem_map_of_mem member)) List.mem_cons_self prints
  exact ⟨k, member, ids, same, (ComplexityRecord.only_stored value).symm⟩

end

/-- Equal texts and, if hashes tell declarations apart, equal fingerprints mean equal declarations, and
equal keys of records mean equal identifiers and fingerprints. Files that are bound or restored give each
callable on their walk the fingerprint of a declaration in them. Whatever runs have left in a cache, each
record in it was stored for a callable that a run has entered, and who enters a callable and finds a
record finds one that was stored for the same identifier and the same declaration. -/
theorem fingerprints_identify {κ : Type} [CacheStore κ] {start : κ} (faithful : Faithful start)
    : (∀ d d' : MethodDecl, d.toJson.compact = d'.toJson.compact → d = d')
      ∧ (∀ d d' : FunctionDecl, d.toJson.compact = d'.toJson.compact → d = d')
      ∧ (∀ decls : List CallableDecl, CallableDecl.Apart decls → ∀ d ∈ decls, ∀ d' ∈ decls,
          d.fingerprint = d'.fingerprint → d = d')
      ∧ (∀ (c c' : Callable) (d d' : CallableDecl), c.fingerprint = d.fingerprint
          → c'.fingerprint = d'.fingerprint → c.cacheKey = c'.cacheKey
          → c.id = c'.id ∧ c.fingerprint = c'.fingerprint)
      ∧ (∀ (parser : Parser) (sources : List InputFile) (units : List CompilationUnit) (r : Registry),
          JoinsAll parser sources ∅ units r
          → ∃ decl : Visit → CallableDecl, (Walk.units r units).Visits fun v => v.Declared decl
            ∧ ((Callable.ofVisit? v).isSome
              → ∃ path p, Sourced (sources.filterMap parser) path p ∧ (decl v).IsIn p))
      ∧ (∀ (records : List CountedRecord) (cache : κ) (decl : Visit → CallableDecl) (r : Registry)
          (units : List CompilationUnit) (kinds : List AnalyzerKind),
          Holds (Accounts records) start cache → (Walk.units r units).Visits (Visit.Declared decl)
          → ∃ new : List CountedRecord, (∀ k ∈ new, k.EnteredIn (Walk.units r units) decl)
            ∧ Holds (Accounts (new ++ records)) start (Analyzer.run r units kinds cache).2)
      ∧ ∀ (records : List CountedRecord) (c : Complexity κ) (callable : Callable) (d : CallableDecl)
          (frame : ComplexityFrame),
          Holds (Accounts records) start c.cache → CallableDecl.Apart (d :: records.map decl)
          → callable.fingerprint = d.fingerprint
          → (c.enterCallable callable).frames.head? = some frame → frame.restored
          → ∃ k ∈ records, k.id = callable.id ∧ k.decl = d ∧ k.record = frame.record := by
  refine ⟨fun d d' same => ?_, fun d d' same => ?_, fun _ apart d left d' right => ?_,
    fun c c' d d' left right keys => ?_, fun _ _ _ _ joins => joins.exists_declared,
    fun _ _ _ _ _ kinds holds declared => ?_, fun _ _ _ _ _ holds apart own entered full => ?_⟩
  · exact MethodDecl.eq_of_text_eq (congrArg String.toUTF8 same)
  · exact FunctionDecl.eq_of_text_eq (congrArg String.toUTF8 same)
  · exact apart.eq_of_fingerprint left right
  · rw [left, right]
    exact Callable.eq_of_cacheKey left right keys
  · exact Analyzer.exists_counted faithful holds declared kinds
  · exact Complexity.exists_counted faithful holds apart own entered full

def emptyFunction (line : UInt64) : FunctionDecl := ⟨"f", [], none, [], [], ⟨line, line⟩⟩

def firstLineRecord : CountedRecord := ⟨.function "f", .function (emptyFunction 1), ⟨1, 1⟩⟩

def firstLineCounted : Complexity MemoryCache where
  cache := ((Cache.storeJson firstLineRecord.entry.1 firstLineRecord.record.toJson).run {}).2

/-- The record is found for the function, and not if the function has moved to the next line. -/
theorem fingerprints_identify_moved
    : CallableDecl.Apart [.function (emptyFunction 2), .function (emptyFunction 1)]
      ∧ (firstLineCounted.enterCallable
            ⟨.function "f", (emptyFunction 1).fingerprint, true⟩).frames.head?.map
          (fun f => (f.restored, f.record))
        = some (true, ⟨1, 1⟩)
      ∧ (firstLineCounted.enterCallable
            ⟨.function "f", (emptyFunction 2).fingerprint, true⟩).frames.head?.map
          ComplexityFrame.restored
        = some false := by
  have apart : CallableDecl.Apart [.function (emptyFunction 2), .function (emptyFunction 1)] :=
    CallableDecl.apart_pair (by decide +kernel)
  have holds : Holds (Accounts [firstLineRecord]) ({} : MemoryCache) firstLineCounted.cache :=
    (holds_start _ _).storeJson fun _ => ⟨firstLineRecord, List.mem_cons_self, rfl⟩
  -- For any other declaration, so that no hash is computed.
  have absent {callable : Callable} {d : CallableDecl} (other : d ≠ firstLineRecord.decl)
      (apart : CallableDecl.Apart [d, firstLineRecord.decl])
      (own : callable.fingerprint = d.fingerprint)
      : (firstLineCounted.enterCallable callable).frames.head?.map ComplexityFrame.restored
        = some false := by
    obtain ⟨_, _, _, _, _, _, replayed⟩ := fingerprints_identify MemoryCache.faithful
    obtain ⟨frame, entered⟩ : ∃ frame,
        (firstLineCounted.enterCallable callable).frames.head? = some frame := ⟨_, rfl⟩
    rw [entered, Option.map_some, Option.some_inj, Bool.eq_false_iff]
    intro full
    obtain ⟨k, member, _, same, _⟩ := replayed _ _ _ _ _ holds apart own entered full
    obtain rfl := List.mem_singleton.mp member
    exact other same.symm
  refine ⟨apart, by decide +kernel, absent ?_ apart ?_⟩
  · simp [firstLineRecord, emptyFunction]
  · rw [CallableDecl.fingerprint]

end DesignMetrics
