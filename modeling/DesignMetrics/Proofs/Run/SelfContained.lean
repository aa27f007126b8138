import DesignMetrics.Proofs.Metric.Retention
import DesignMetrics.Proofs.Run.InputOrder

/-! Units in a cache stand for themselves.
A unit is kept only if nothing in it was shadowed. Then its snapshot is that of its file alone, whatever
was registered when the file was bound.
-/

namespace DesignMetrics

open List (Forall₂)

def Node.isMember : Node → Bool
  | .method _ | .property _ => true
  | _ => false

namespace Snapshot

/-- Whether an identifier leads to a node of the snapshot, once this is attached to an empty registry. -/
def Resolves (s : Snapshot) (admitted : Node → Bool) (id : NodeId) : Prop :=
  ∃ n ∈ s.nodes, n.id ∈ s.unit.declared ∧ admitted n
    ∧ (s.attach ∅).node? id = some (n.withCached true)

/-- Whether everything that a snapshot leads to is part of it. -/
structure SelfContained (s : Snapshot) : Prop where
  markers : ∀ id ∈ markersIn s.unit.statements, s.Resolves isDeclaration id
  bodies : ∀ n ∈ s.nodes, ∀ id ∈ markersIn n.statements, s.Resolves isDeclaration id
  members : ∀ t, .type t ∈ s.nodes → ∀ id ∈ t.members, s.Resolves Node.isMember id

end Snapshot

namespace SourceFile

variable {file : SourceFile}

/-- What is found in the registry of a file that was bound alone is found in its snapshot. -/
theorem resolves_snapshot (clean : (file.draft []).shadowed = []) (fingerprint : String)
    {admitted : Node → Bool} (unmarked : ∀ n cached, admitted (n.withCached cached) = admitted n)
    {id : NodeId} {y : Node} (found : (file.bind fingerprint ∅).2.node? id = some y)
    (kind : admitted y) : (file.snapshot fingerprint).Resolves admitted id := by
  obtain ⟨_, agree⟩ := file.attach_agree (.refl ∅) Tracks.empty clean (by simp) fingerprint
  have same := agree.node? id
  rw [found, Option.map_some, Option.map_eq_some_iff] at same
  obtain ⟨z, there, bare⟩ := same
  obtain ⟨n, member, rfl⟩ :=
    (Snapshot.mem_attach (Registry.alike_of_node? there).1).resolve_left (by simp)
  refine ⟨n, member, List.mem_map_of_mem (finals_subset _ member), ?_, there⟩
  calc admitted n
    _ = admitted (n.withCached true).bare := by rw [unmarked, unmarked]
    _ = admitted y.bare := by rw [bare]
    _ = admitted y := unmarked y false
    _ = true := kind

/-- The snapshot of a file in which nothing is shadowed is self-contained. -/
theorem selfContained_snapshot (unbound : file.Unbound) (clean : (file.draft []).shadowed = [])
    (fingerprint : String) : (file.snapshot fingerprint).SelfContained := by
  obtain ⟨r, ran, nodes, _⟩ := file.bind_eq Tracks.empty fingerprint
  have alone : ∀ other ∈ [file], other.Unbound := by simpa using unbound
  have marks := marks_draft alone (List.mem_singleton_self file) []
  have bound : Bound [file] [] ∅ ([(file.bind fingerprint ∅).1], (file.bind fingerprint ∅).2)
      (file.draft []).outline := by
    rw [ran]
    exact ⟨by simpa using marks, nodes, by simp, by simpa using ⟨[], rfl⟩⟩
  have sound : ∀ x ∈ (file.snapshot fingerprint).nodes, Sound (file.bind fingerprint ∅).2 x :=
    fun x member => bound.laid.formed.sound bound.laid bound.laid.placed x (finals_subset _ member)
  have declaration : ∀ (n : Node) (cached : Bool),
      Snapshot.isDeclaration (n.withCached cached) = Snapshot.isDeclaration n := by
    intro n cached
    cases n <;> rfl
  refine ⟨fun id marker => ?_, fun n member id marker => ?_, fun t member id listed => ?_⟩
  · have marker : id ∈ [(file.bind fingerprint ∅).1].flatMap fun u => markersIn u.statements := by
      rw [ran]
      simpa [snapshot] using marker
    obtain ⟨y, _, found, kind⟩ := bound.marker_found marker
    exact file.resolves_snapshot clean fingerprint declaration found kind
  · have link : id ∈ n.links ∧ n.type? = none := by
      cases n <;> simp_all [Node.statements, Node.links, Node.type?]
    obtain ⟨y, found, kind⟩ := sound n member id link.1
    refine file.resolves_snapshot clean fingerprint declaration found ?_
    cases n <;> simp_all [Node.admits, Node.type?]
  · obtain ⟨y, found, kind⟩ := sound (.type t) member id listed
    refine file.resolves_snapshot clean fingerprint (fun n cached => by cases n <;> rfl) found ?_
    cases y <;> simp_all [Node.admits, Node.isMember]

end SourceFile

def UnitEntry (parser : Parser) (k : CacheKey) (payload : ByteArray) : Prop :=
  k.tag = "ast" → ∃ s file, parser s = some file ∧ (file.draft []).shadowed = []
    ∧ payload = (file.snapshot s.fingerprint).toJson.text

def Registry.AllDeclared (r : Registry) : Prop := ∀ n ∈ r.toList, n.isUserDefined

namespace Registry.AllDeclared

variable {r : Registry}

theorem tracks (h : r.AllDeclared) : Tracks (r.toList.map Node.id) r := ⟨fun _ => Iff.rfl, h⟩

theorem bind (h : r.AllDeclared) (file : SourceFile) (fingerprint : String)
    : (file.bind fingerprint r).2.AllDeclared := by
  obtain ⟨r', ran, _, tracks⟩ := file.bind_eq h.tracks fingerprint
  rw [ran]
  exact tracks.own

theorem attach (h : r.AllDeclared) (file : SourceFile) (fingerprint : String)
    : ((file.snapshot fingerprint).attach r).AllDeclared := by
  intro n there
  rcases Snapshot.mem_attach there with before | ⟨kept, inside, rfl⟩
  · exact h n before
  · obtain ⟨_, _, _, stands⟩ := file.mem_snapshot (List.mem_singleton_self file) inside
    rw [Node.isUserDefined_withCached]
    exact stands.isUserDefined

end Registry.AllDeclared

variable {κ : Type} [CacheStore κ] {parser : Parser} {start : κ} {c : κ}

namespace Run

/-- What a file may be prepared as: it is parsed, or some file's snapshot is taken for it. -/
inductive Available (parser : Parser) (s : InputFile) : Prepared → Prop
  | parsed : Available parser s (parse parser s)
  | restored (file : SourceFile) (fingerprint : String)
    : Available parser s (.snapshot (file.snapshot fingerprint))

variable {s : InputFile}

theorem Available.recheck {prepared : Prepared} (h : Available parser s prepared) (r : Registry)
    : Available parser s (Run.recheck parser r s prepared) := by
  cases h with
  | parsed =>
    rw [recheck_parse]
    exact .parsed
  | restored file fingerprint =>
    unfold Run.recheck
    dsimp only
    split
    · exact .parsed
    · exact .restored file fingerprint

theorem available_prepareAll (faithful : Faithful start) (sources : List InputFile)
    (holds : Holds (UnitEntry parser) start c)
    : Forall₂ (Available parser) sources ((sources.mapM (prepare parser)).run c).1
      ∧ Holds (UnitEntry parser) start ((sources.mapM (prepare parser)).run c).2 := by
  refine holds_prepareAll faithful (fun _ => .parsed) (fun s _ _ snapshot stored value => ?_) holds
  obtain ⟨t, file, _, _, rfl⟩ := stored rfl
  obtain rfl : snapshot = (file.snapshot t.fingerprint).bare := Snapshot.only_stored value
  rw [file.bare_snapshot]
  exact .restored file t.fingerprint

theorem holds_addFile {p : Progress} (own : p.registry.AllDeclared)
    (holds : Holds (UnitEntry parser) start c) {prepared : Prepared}
    (available : Available parser s prepared)
    : ((addFile parser p s prepared).run c).1.registry.AllDeclared
      ∧ Holds (UnitEntry parser) start ((addFile parser p s prepared).run c).2 := by
  have next := available.recheck p.registry
  unfold addFile
  generalize recheck parser p.registry s prepared = checked at next
  cases next with
  | parsed =>
    unfold parse
    cases parsed : parser s with
    | none => exact ⟨own, holds⟩
    | some file => exact ⟨own.bind file s.fingerprint, holds_keep own.tracks holds fun clean _ =>
        ⟨s, file, parsed, clean, rfl⟩⟩
  | restored file fingerprint => exact ⟨own.attach file fingerprint, holds⟩

theorem holds_addFiles {sources : List InputFile} {prepared : List Prepared}
    (available : Forall₂ (Available parser) sources prepared) {p : Progress}
    (own : p.registry.AllDeclared) (holds : Holds (UnitEntry parser) start c)
    : Holds (UnitEntry parser) start ((addFiles parser p (sources.zip prepared)).run c).2 := by
  induction available generalizing p c with
  | nil => exact holds
  | cons first _ ih =>
    obtain ⟨own', kept⟩ := holds_addFile own holds first
    exact ih own' kept

end Run

/-- A run leaves nothing but snapshots under the keys of units. -/
theorem holds_run_units (faithful : Faithful start) (kinds : List AnalyzerKind)
    (sources : List InputFile) (holds : Holds (UnitEntry parser) start c)
    : Holds (UnitEntry parser) start ((run parser kinds sources).run c).2 := by
  obtain ⟨available, kept⟩ := Run.available_prepareAll faithful sources holds
  have empty : ({} : Run.Progress).registry.AllDeclared := by simp [Registry.AllDeclared]
  -- Records do not matter to the units in a cache.
  have retained : Retained (fun k => k.tag = "ccn") (Holds (UnitEntry parser) start) :=
    ⟨fun k _ _ holds => (holds.restoreAs faithful _ k).1,
      fun _ _ _ tag holds => holds.storeJson fun unit => by simp [tag] at unit⟩
  rw [run_run]
  exact Analyzer.run_retains retained (fun _ _ _ _ => rfl) _ (Run.holds_addFiles available empty kept)

variable (parser) in
theorem holds_runAll_units (faithful : Faithful start)
    (history : List (List AnalyzerKind × List InputFile)) (holds : Holds (UnitEntry parser) start c)
    : Holds (UnitEntry parser) start ((runAll parser history).run c).2 := by
  induction history generalizing c with
  | nil => exact holds
  | cons call history ih =>
    rw [runAll, List.mapM_cons]
    exact ih (holds_run_units faithful call.1 call.2 holds)

/-- Whatever runs have shared a cache that was empty in the beginning, every unit in it that can be read
has no shadowed declaration and is self-contained: attached to an empty registry, its markers lead to
types and functions of its own, and the member lists of its types to methods and properties of its own.
-/
theorem cached_units_self_contained (faithful : Faithful start) (grammar : InputFile → Option Cst)
    (history : List (List AnalyzerKind × List InputFile)) {k : CacheKey} (tag : k.tag = "ast")
    {payload : ByteArray}
    (found : ((CacheStore.restore k : StateM κ _).run
      ((runAll (.ofGrammar grammar) history).run start).2).1 = some payload) {s : Snapshot}
    (decoded : (Json.parseStored? payload).bind (Snapshot.ofJson? .ofText) = some s)
    : s.unit.shadowed = [] ∧ s.SelfContained := by
  obtain ⟨log, reached, entries⟩ :=
    holds_runAll_units (.ofGrammar grammar) faithful history (holds_start _ start)
  obtain ⟨t, file, parsed, clean, rfl⟩ := entries _ (faithful log _ reached k payload found) tag
  obtain rfl : s = (file.snapshot t.fingerprint).bare := Snapshot.only_stored decoded
  rw [file.bare_snapshot]
  obtain ⟨tree, _, rfl⟩ := Option.map_eq_some_iff.mp parsed
  exact ⟨rfl, SourceFile.selfContained_snapshot (SourceFile.unbound_ofCst _ _ tree) clean _⟩

def nestedSource : InputFile :=
  ⟨"a.php", "<?php class A { function m() { function f() {} } }".toUTF8⟩

def nestedTree : Cst :=
  let phrase (kind field : String) (start stop : Nat) (children : List Cst) : Cst :=
    .node ⟨kind, true, field, start, stop⟩ children
  phrase "program" "" 0 50 [
    phrase "class_declaration" "" 6 50 [
      phrase "name" "name" 12 13 [],
      phrase "declaration_list" "body" 14 50 [
        phrase "method_declaration" "" 16 48 [
          phrase "name" "name" 25 26 [],
          phrase "formal_parameters" "parameters" 26 28 [],
          phrase "compound_statement" "body" 29 48 [
            phrase "function_definition" "" 31 46 [
              phrase "name" "name" 40 41 [],
              phrase "formal_parameters" "parameters" 41 43 [],
              phrase "compound_statement" "body" 44 46 []]]]]]]

def nestedGrammar : InputFile → Option Cst := fun _ => some nestedTree

def nestedRuns : List (List AnalyzerKind × List InputFile) :=
  [([], [nestedSource]), ([], [nestedSource])]

/-- The class, its method and the function in it are all part of the unit. -/
theorem cached_units_self_contained_nested
    : Faithful ({} : MemoryCache) ∧ ∃ payload s,
        ((CacheStore.restore (Run.unitKey nestedSource) : StateM MemoryCache _).run
          ((runAll (.ofGrammar nestedGrammar) nestedRuns).run {}).2).1 = some payload
        ∧ (Json.parseStored? payload).bind (Snapshot.ofJson? .ofText) = some s
        ∧ (s.nodes.map fun n => (n.id, n.links)) = [(.classType "A", [.method "A" "m"]),
          (.method "A" "m", [.function "f"]), (.function "f", [])]
        ∧ s.unit.shadowed = [] ∧ s.SelfContained := by
  have read : (((CacheStore.restore (Run.unitKey nestedSource) : StateM MemoryCache _).run
      ((runAll (.ofGrammar nestedGrammar) nestedRuns).run {}).2).1.bind fun payload =>
        (Json.parseStored? payload).bind (Snapshot.ofJson? .ofText)).map
      (fun s => s.nodes.map fun n => (n.id, n.links)) = some [(.classType "A", [.method "A" "m"]),
        (.method "A" "m", [.function "f"]), (.function "f", [])] := by decide +kernel
  obtain ⟨s, value, nodes⟩ := Option.map_eq_some_iff.mp read
  obtain ⟨payload, found, decoded⟩ := Option.bind_eq_some_iff.mp value
  exact ⟨MemoryCache.faithful, payload, s, found, decoded, nodes,
    cached_units_self_contained MemoryCache.faithful nestedGrammar nestedRuns rfl found decoded⟩

end DesignMetrics
