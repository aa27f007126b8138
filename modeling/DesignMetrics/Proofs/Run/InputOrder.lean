import DesignMetrics.Proofs.Binding.Reordering
import DesignMetrics.Proofs.Lowering.Unbound
import DesignMetrics.Proofs.Metric.UnitOrder
import DesignMetrics.Proofs.Run.Transparency

/-! The order of the input.
If none of the files shadows another one, the registry has the same nodes in every order, and what the
analyzers count and collect does not depend on the order of the units. So without a cache every order of
the files has the same results.
-/

namespace DesignMetrics

open List

/-- Whether two results say the same of the project and of its nodes. -/
structure AnalyzerResult.Same (a b : AnalyzerResult) : Prop where
  kind : a.kind = b.kind
  project : a.project = b.project
  nodes : a.nodes.toList = b.nodes.toList
  relations : a.relations.toList = b.relations.toList

/-- What is found in a map of those nodes about which there is something to tell. -/
theorem getElem?_ofList_told {β : Type} (p : β → Bool) (ids : List NodeId) (f : NodeId → β) (id : NodeId)
    : (Std.TreeMap.ofList ((ids.map fun id => (id, f id)).filter fun e => p e.2))[id]?
      = if id ∈ ids ∧ p (f id) then some (f id) else none := by
  rw [Std.TreeMap.ofList_eq_insertMany_empty, getElem?_insertMany f]
  · have listed : id ∈ ((ids.map fun id => (id, f id)).filter fun e => p e.2).map Prod.fst
        ↔ id ∈ ids ∧ p (f id) := by
      simp [List.mem_map, List.mem_filter]
    simp [listed]
  · intro e member
    obtain ⟨id, _, rfl⟩ := List.mem_map.mp (List.mem_filter.mp member).1
    rfl

/-- What is listed of some nodes depends on which ones they are, and not on their order. -/
theorem toList_ofList_congr {β : Type} (p : β → Bool) {ids ids' : List NodeId} {f f' : NodeId → β}
    (asked : ∀ id, id ∈ ids ↔ id ∈ ids') (told : ∀ id, f id = f' id)
    : (Std.TreeMap.ofList ((ids.map fun id => (id, f id)).filter fun e => p e.2)).toList
      = (Std.TreeMap.ofList ((ids'.map fun id => (id, f' id)).filter fun e => p e.2)).toList := by
  obtain rfl : f = f' := funext told
  refine (Std.TreeMap.Equiv.of_forall_constGet?_eq fun id => ?_).toList_eq
  simp only [getElem?_ofList_told, asked]

/-- Analyzers with the same to tell have the same results in registries with the same nodes. -/
theorem Analyzer.Alike.resultOf {a b : Analyzer NoCache} (h : a.Alike b) {r r' : Registry}
    (nodes : r.Reordered r') : (Run.resultOf r a).Same (Run.resultOf r' b) := by
  have declared (id : NodeId) : id ∈ (r.toList.filter Node.isUserDefined).map Node.id
      ↔ id ∈ (r'.toList.filter Node.isUserDefined).map Node.id := by
    rw [Node.seeing_unplaced.declaredIds r.toList, Node.seeing_unplaced.declaredIds r'.toList]
    exact ((nodes.nodes.filter _).map _).mem_iff
  have asked (id : NodeId) : id ∈ Run.askedIds r a ↔ id ∈ Run.askedIds r' b := by
    simp only [Run.askedIds, List.mem_append, declared, h.known]
  exact ⟨h.kind, h.project, toList_ofList_congr (fun told : MetricSet => !told.isEmpty) asked h.metrics,
    toList_ofList_congr (fun told : Relations => !told.isEmpty) asked h.relations⟩

/-- What an analyzer without a cache is after the walk through units that have been bound. -/
def Analyzer.After (bound : List CompilationUnit × Registry) (kind : AnalyzerKind)
    (a : Analyzer NoCache) : Prop :=
  Traversal.observeAll bound.2 (Walk.units bound.2 bound.1).events (start ⟨⟩ kind) = .ok a

section

variable {files files' : List (SourceFile × String)} (unbound : ∀ file ∈ files, file.1.Unbound)
variable (same : files.Perm files') (clean : ∀ u ∈ (bindAll ∅ files).1, u.shadowed = [])
variable (clean' : ∀ u ∈ (bindAll ∅ files').1, u.shadowed = [])
variable (spaces : (bindAll ∅ files).2.OneCase)

include unbound same clean clean' spaces

/-- An analyzer that walks the units of the same files in different orders has the same results. -/
theorem resultOf_perm {kind : AnalyzerKind} {a b : Analyzer NoCache}
    (left : Analyzer.After (bindAll ∅ files) kind a) (right : Analyzer.After (bindAll ∅ files') kind b)
    : a.kind = kind
      ∧ (Run.resultOf (bindAll ∅ files).2 a).Same (Run.resultOf (bindAll ∅ files').2 b) := by
  obtain ⟨nodes, units⟩ := reordered_bindAll unbound same clean clean' spaces
  obtain ⟨_, bound, owned⟩ := bindAll_empty_of_clean unbound clean
  -- The second walk is one through the first registry, up to the places of namespaces.
  have walks := congrArg Walk.events (Walk.unplaced_units nodes (bindAll ∅ files').1)
  rw [Analyzer.After, ← Analyzer.observeAll_sameTypes nodes.sameTypes walks] at right
  obtain ⟨own, alike⟩ := bound.analyzers_perm owned units nodes.apart
    (fun n member => named_of_mem_bindAll member) kind left right
  exact ⟨own, alike.resultOf nodes⟩

/-- So have all analyzers, one by one. -/
theorem results_perm {kinds : List AnalyzerKind} {as bs : List (Analyzer NoCache)}
    (left : Forall₂ (Analyzer.After (bindAll ∅ files)) kinds as)
    (right : Forall₂ (Analyzer.After (bindAll ∅ files')) kinds bs)
    : as.map Analyzer.kind = kinds
      ∧ Forall₂ AnalyzerResult.Same (as.map (Run.resultOf (bindAll ∅ files).2))
          (bs.map (Run.resultOf (bindAll ∅ files').2)) := by
  induction left generalizing bs with
  | nil =>
    cases right
    exact ⟨rfl, .nil⟩
  | cons here _ ih =>
    cases right with
    | cons here' later =>
      obtain ⟨kind, first⟩ := resultOf_perm unbound same clean clean' spaces here here'
      obtain ⟨kinds, others⟩ := ih later
      exact ⟨congrArg₂ List.cons kind kinds, .cons first others⟩

end

namespace Run

/-- Without a cache, a file is bound if it can be parsed. -/
theorem addFile_uncached (parser : Parser) (s : InputFile) (p : Progress) (c : NoCache)
    : let added := ((addFile parser p s (parse parser s)).run c).1
      added.units = p.units ++ (bindAll p.registry (parsedFiles parser [s])).1
      ∧ added.registry = (bindAll p.registry (parsedFiles parser [s])).2 := by
  cases parsed : parser s with
  | none =>
    have failed : recheck parser p.registry s (parse parser s) = .failed := by
      simp [parse, recheck, parsed]
    have nothing : parsedFiles parser [s] = [] := by simp [parsedFiles, parsed]
    rw [addFile, failed, nothing]
    exact ⟨(List.append_nil _).symm, rfl⟩
  | some file =>
    have found : recheck parser p.registry s (parse parser s) = .file file := by
      simp [parse, recheck, parsed]
    have one : parsedFiles parser [s] = [(file, s.fingerprint)] := by simp [parsedFiles, parsed]
    rw [addFile, found, one]
    exact ⟨rfl, rfl⟩

/-- Without a cache, files are bound one after the other. -/
theorem addFiles_uncached (parser : Parser) (sources : List InputFile) (p : Progress) (c : NoCache)
    : let added := ((addFiles parser p (sources.map fun s => (s, parse parser s))).run c).1
      added.units = p.units ++ (bindAll p.registry (parsedFiles parser sources)).1
      ∧ added.registry = (bindAll p.registry (parsedFiles parser sources)).2 := by
  induction sources generalizing p c with
  | nil => exact ⟨(List.append_nil _).symm, rfl⟩
  | cons s sources ih =>
    obtain ⟨units, registry⟩ := addFile_uncached parser s p c
    have split : parsedFiles parser (s :: sources)
        = parsedFiles parser [s] ++ parsedFiles parser sources :=
      List.filterMap_append (l := [s])
    obtain ⟨more, last⟩ := ih ((addFile parser p s (parse parser s)).run c).1
      ((addFile parser p s (parse parser s)).run c).2
    rw [split, bindAll_append]
    simp only [units, registry] at more last
    exact ⟨more.trans (List.append_assoc ..), last⟩

theorem prepare_uncached (parser : Parser) (sources : List InputFile)
    : ((sources.mapM (prepare parser)).run NoCache.mk).1 = sources.map (parse parser) := by
  induction sources with
  | nil => rfl
  | cons s sources ih =>
    rw [List.mapM_cons]
    exact congrArg _ ih

theorem buildUnits_uncached (parser : Parser) (sources : List InputFile)
    : let built := ((buildUnits parser sources).run NoCache.mk).1
      built.units = (bindAll ∅ (parsedFiles parser sources)).1
      ∧ built.registry = (bindAll ∅ (parsedFiles parser sources)).2 := by
  have added := addFiles_uncached parser sources {} ⟨⟩
  rw [List.map_prod_left_eq_zip, ← prepare_uncached] at added
  exact added

end Run

/-- A run that succeeds without a cache has bound the files that it could parse, and has the results
of the analyzers after the walk through them.
-/
theorem run_uncached {parser : Parser} {kinds : List AnalyzerKind} {sources : List InputFile}
    {result : RunResult} (ok : ((run parser kinds sources).run NoCache.mk).1 = .ok result)
    : let bound := bindAll ∅ (parsedFiles parser sources)
      result.units = bound.1 ∧ result.registry = bound.2
      ∧ ∃ analyzers, Forall₂ (Analyzer.After bound) kinds analyzers
        ∧ result.results = analyzers.map (Run.resultOf bound.2) := by
  obtain ⟨units, registry⟩ := Run.buildUnits_uncached parser sources
  rw [run_run] at ok
  simp only [Run.returned, units, registry] at ok
  split at ok
  · simp at ok
  · rename_i fine
    obtain rfl := Except.ok.inj ok
    refine ⟨rfl, rfl, _, ?_, rfl⟩
    have states := Traversal.follow_states fine
    rw [← forall₂_eq_eq_eq, forall₂_map_left_iff, forall₂_map_right_iff, forall₂_map_right_iff] at states
    exact states.flip.imp fun _ _ done => done.symm

def Parser.ofGrammar (grammar : InputFile → Option Cst) : Parser :=
  fun s => (grammar s).map (SourceFile.ofCst s.path s.content)

/-- What is lowered from trees has not been bound. -/
theorem unbound_parsedFiles (grammar : InputFile → Option Cst) (sources : List InputFile)
    : ∀ file ∈ parsedFiles (.ofGrammar grammar) sources, file.1.Unbound := by
  intro file member
  obtain ⟨s, _, parsed⟩ := List.mem_filterMap.mp member
  obtain ⟨lowered, found, rfl⟩ := Option.map_eq_some_iff.mp parsed
  obtain ⟨tree, _, rfl⟩ := Option.map_eq_some_iff.mp found
  exact SourceFile.unbound_ofCst s.path s.content tree

instance (r : Registry) : Decidable r.OneCase :=
  decidable_of_iff (∀ m ∈ r.toList, ∀ n ∈ r.toList, m.isSpace → n.isSpace
      → Text.lower m.spaceName = Text.lower n.spaceName → m.spaceName = n.spaceName) <| by
    constructor
    · exact fun h m n left right => h (.space m) left (.space n) right rfl rfl
    · intro h m left n right first second
      cases m <;> simp only [Node.isSpace, Bool.false_eq_true] at first
      cases n <;> simp only [Node.isSpace, Bool.false_eq_true] at second
      exact h _ _ left right

/-- The order of the files does not matter if nothing is declared twice. Two runs without a cache over
the same files in different orders, with any analyzers, have the same results if both succeed, no unit
has a shadowed declaration and no two namespaces differ in the case of their letters alone.
-/
theorem results_independent_of_order (grammar : InputFile → Option Cst) (kinds : List AnalyzerKind)
    {sources sources' : List InputFile} (same : sources.Perm sources') {a b : RunResult}
    (left : ((run (.ofGrammar grammar) kinds sources).run NoCache.mk).1 = .ok a)
    (right : ((run (.ofGrammar grammar) kinds sources').run NoCache.mk).1 = .ok b)
    (clean : ∀ u ∈ a.units, u.shadowed = []) (clean' : ∀ u ∈ b.units, u.shadowed = [])
    (spaces : a.registry.OneCase)
    : a.results.map AnalyzerResult.kind = kinds ∧ Forall₂ AnalyzerResult.Same a.results b.results := by
  obtain ⟨units, registry, as, ran, results⟩ := run_uncached left
  obtain ⟨units', registry', bs, ran', results'⟩ := run_uncached right
  rw [units] at clean
  rw [units'] at clean'
  rw [registry] at spaces
  have files := same.filterMap fun s => (Parser.ofGrammar grammar s).map fun file => (file, s.fingerprint)
  have told := results_perm (unbound_parsedFiles grammar sources) files clean clean' spaces ran ran'
  rw [results, results', List.map_map]
  exact told

def classTree (base : List Cst) (stop : Nat) : Cst :=
  let phrase (kind field : String) (start stop : Nat) (children : List Cst) : Cst :=
    .node ⟨kind, true, field, start, stop⟩ children
  phrase "program" "" 0 stop [
    phrase "namespace_definition" "" 6 20 [phrase "namespace_name" "name" 16 19 []],
    phrase "class_declaration" "" 21 stop
      (phrase "name" "name" 27 28 [] :: base ++ [phrase "declaration_list" "body" (stop - 2) stop []])]

def baseSource : InputFile := ⟨"a.php", "<?php namespace App; class A {}".toUTF8⟩

def heirSource : InputFile := ⟨"b.php", "<?php namespace Lib; class B extends \\App\\A {}".toUTF8⟩

def heirGrammar (s : InputFile) : Option Cst :=
  if s.path = "a.php" then some (classTree [] 31)
  else
    let name : Cst := .node ⟨"qualified_name", true, "", 37, 43⟩ []
    some (classTree [.node ⟨"base_clause", true, "", 29, 43⟩ [name]] 46)

def heirRun (sources : List InputFile) : Except (TraversalFault NodeCountFault) RunResult :=
  ((run (.ofGrammar heirGrammar) AnalyzerKind.all sources).run NoCache.mk).1

/-- The class that is extended may be bound before or after the other one. -/
theorem results_independent_of_order_heir
    : ∃ a b, heirRun [baseSource, heirSource] = .ok a ∧ heirRun [heirSource, baseSource] = .ok b
      ∧ (∀ u ∈ a.units, u.shadowed = []) ∧ (∀ u ∈ b.units, u.shadowed = []) ∧ a.registry.OneCase
      ∧ a.registry.toList.map Node.id
        = [.space "App", .classType "App\\A", .space "Lib", .classType "Lib\\B"]
      ∧ b.registry.toList.map Node.id
        = [.space "Lib", .classType "Lib\\B", .space "App", .classType "App\\A"]
      ∧ a.results.map AnalyzerResult.kind = AnalyzerKind.all
      ∧ Forall₂ AnalyzerResult.Same a.results b.results := by
  have found (sources : List InputFile) (ids : List NodeId)
      (holds : (heirRun sources).toOption.any fun a =>
        (∀ u ∈ a.units, u.shadowed = []) ∧ a.registry.OneCase ∧ a.registry.toList.map Node.id = ids)
      : ∃ a, heirRun sources = .ok a ∧ (∀ u ∈ a.units, u.shadowed = []) ∧ a.registry.OneCase
        ∧ a.registry.toList.map Node.id = ids := by
    generalize heirRun sources = ran at holds ⊢
    cases ran with
    | error => simp [Except.toOption] at holds
    | ok a => exact ⟨a, rfl, of_decide_eq_true holds⟩
  obtain ⟨a, left, clean, spaces, nodes⟩ := found [baseSource, heirSource]
    [.space "App", .classType "App\\A", .space "Lib", .classType "Lib\\B"] (by decide +kernel)
  obtain ⟨b, right, clean', _, nodes'⟩ := found [heirSource, baseSource]
    [.space "Lib", .classType "Lib\\B", .space "App", .classType "App\\A"] (by decide +kernel)
  exact ⟨a, b, left, right, clean, clean', spaces, nodes, nodes',
    results_independent_of_order heirGrammar _ (.swap _ _ []) left right clean clean' spaces⟩

end DesignMetrics
