import DesignMetrics.Proofs.Metric.KnownIds
import DesignMetrics.Report.Basic

/-! Reports are complete.
A node is listed if and only if an analyzer has metrics of it. No identifier is lost between the nodes
that are declared and the others.
-/

namespace DesignMetrics

open List

/-- Whether a result has all metrics and relations of an analyzer, and nothing else. -/
structure AnalyzerResult.Tells {κ : Type} (b : AnalyzerResult) (a : Analyzer κ)
    : Prop where
  kind : b.kind = a.kind
  project : b.project = a.projectMetrics
  nodes : ∀ id : NodeId,
    b.nodes[id]? = if a.nodeMetrics id = [] then none else some (a.nodeMetrics id)
  relations : ∀ id : NodeId,
    b.relations[id]? = if a.relations id = [] then none else some (a.relations id)

namespace Analyzer

variable {κ : Type} {a : Analyzer κ} {id : NodeId}

/-- An analyzer knows the nodes that it has metrics of. -/
theorem mem_nodeIds_of_nodeMetrics (h : a.nodeMetrics id ≠ []) : id ∈ a.nodeIds := by
  have known {β : Type} {records : Std.TreeMap NodeId β} (found : records[id]? ≠ none)
      : id ∈ records.keys := by
    rw [Std.TreeMap.mem_keys, Std.TreeMap.mem_iff_isSome_getElem?]
    exact Option.isSome_iff_ne_none.mpr found
  cases a <;> refine known fun missing => h ?_
  · simp [nodeMetrics, Coupling.nodeMetrics, missing]
  · simp [nodeMetrics, NodeCount.nodeMetrics, missing]
  · simp [nodeMetrics, Complexity.nodeMetrics, missing]
  · simp [nodeMetrics, Dependency.nodeMetrics, missing]

/-- An analyzer has metrics of the nodes that it has relations of. -/
theorem nodeMetrics_of_relations (h : a.relations id ≠ []) : a.nodeMetrics id ≠ [] := by
  cases a with
  | dependency d =>
    cases found : d.spaces[id]? with
    | none => simp [relations, Dependency.relations, found] at h
    | some space => simp [nodeMetrics, Dependency.nodeMetrics, found, NamespaceRecord.metrics]
  | _ => simp [relations] at h

end Analyzer

/-- An analyzer is asked about all nodes that it has something to tell of. -/
theorem Run.tells_resultOf {κ : Type} (r : Registry) (a : Analyzer κ)
    : (resultOf r a).Tells a := by
  have asked {id : NodeId} (h : a.nodeMetrics id ≠ []) : id ∈ askedIds r a :=
    mem_append.mpr (.inr (Analyzer.mem_nodeIds_of_nodeMetrics h))
  refine ⟨rfl, rfl, fun id => ?_, fun id => ?_⟩
  · refine (getElem?_ofList_told (fun told : MetricSet => !told.isEmpty) _ _ id).trans ?_
    by_cases nothing : a.nodeMetrics id = []
    · simp [nothing]
    · simp [nothing, asked nothing]
  · refine (getElem?_ofList_told (fun told : Relations => !told.isEmpty) _ _ id).trans ?_
    by_cases nothing : a.relations id = []
    · simp [nothing]
    · simp [nothing, asked (Analyzer.nodeMetrics_of_relations nothing)]

/-- Whether an analyzer has metrics of a node. -/
def RunResult.IsMeasured (r : RunResult) (id : NodeId) : Prop :=
  ∃ a ∈ r.results, a.nodes[id]?.getD [] ≠ []

instance (r : RunResult) (id : NodeId) : Decidable (r.IsMeasured id) :=
  inferInstanceAs (Decidable (∃ a ∈ r.results, _))

/-- What holds of the results of every run. -/
structure RunResult.Sound (r : RunResult) : Prop where
  own : ∀ n ∈ r.registry.toList, n.isUserDefined
  once : ∀ a ∈ r.results, ∀ b ∈ r.results, a.kind = b.kind → a = b
  filled : ∀ a ∈ r.results, ∀ (id : NodeId) m, a.nodes[id]? = some m → m ≠ []
  spelled : ∀ id, r.IsMeasured id → (r.registry.isDeclared id ↔ id ∈ r.registry.toList.map Node.id)

/-- A run without a cache has such results, and they tell what the analyzers know after the walk. -/
theorem RunResult.sound_of_run {parser : Parser} {kinds : List AnalyzerKind} {sources : List InputFile}
    {result : RunResult} (ok : ((run parser kinds sources).run NoCache.mk).1 = .ok result)
    : result.Sound ∧ ∃ analyzers,
        Forall₂ (Analyzer.After (result.units, result.registry)) kinds analyzers
        ∧ Forall₂ AnalyzerResult.Tells result.results analyzers := by
  obtain ⟨units, registry, analyzers, ran, results⟩ := run_uncached ok
  rw [show bindAll ∅ (parsedFiles parser sources) = (result.units, result.registry) by
    rw [units, registry]] at ran results
  have tidy : Tidy result.registry := registry ▸ Tidy.empty.bindAll _
  -- An analyzer is determined by its kind, since all of them have met the same events.
  have after : ∀ a ∈ analyzers, Analyzer.After (result.units, result.registry) a.kind a
      ∧ ∀ id ∈ a.nodeIds, result.registry.IsSpelling id := by
    refine ((forall₂_and_left _ _).mp (ran.flip.imp fun a kind walked => ⟨?_, walked⟩)).1
    have known : Analyzer.After (result.units, (bindAll ∅ (parsedFiles parser sources)).2) kind a :=
      registry ▸ walked
    obtain ⟨rfl, spellings⟩ := known.known
    exact ⟨walked, registry ▸ spellings⟩
  have tells : ∀ b ∈ result.results, ∃ a ∈ analyzers, b = Run.resultOf result.registry a := by
    rw [results]
    simp +contextual [eq_comm]
  refine ⟨⟨tidy.own, fun b left b' right same => ?_, fun b member id m found => ?_,
    fun id measured => ?_⟩, analyzers, ran, ?_⟩
  · obtain ⟨a, there, rfl⟩ := tells b left
    obtain ⟨a', there', rfl⟩ := tells b' right
    have kinds : a.kind = a'.kind := same
    have ends : a = a' := Except.ok.inj ((after a there).1.symm.trans (kinds ▸ (after a' there').1))
    rw [ends]
  · obtain ⟨a, _, rfl⟩ := tells b member
    rw [(Run.tells_resultOf _ a).nodes] at found
    split at found
    · simp at found
    · rename_i some
      exact Option.some.inj found ▸ some
  · obtain ⟨b, member, some⟩ := measured
    obtain ⟨a, there, rfl⟩ := tells b member
    refine tidy.isDeclared_iff_mem ((after a there).2 id ?_)
    refine Analyzer.mem_nodeIds_of_nodeMetrics fun nothing => some ?_
    simp [(Run.tells_resultOf _ a).nodes, nothing]
  · rw [results, forall₂_map_left_iff]
    exact forall₂_same.mpr fun a _ => Run.tells_resultOf _ a

theorem AnalyzerKind.name_injective {a b : AnalyzerKind} (h : a.name = b.name) : a = b := by
  cases a <;> cases b <;> simp [name] at h ⊢

/-- Whether something of each analyzer that has it is listed, under the name of the analyzer, in the
order of the names, and nothing else.
-/
def ByName.Lists {α : Type} (results : List AnalyzerResult) (of : AnalyzerResult → Option α)
    (listed : ByName α) : Prop :=
  (listed.map Prod.fst).Pairwise (· < ·)
  ∧ ∀ name x, (name, x) ∈ listed ↔ ∃ a ∈ results, a.kind.name = name ∧ of a = some x

variable {α : Type}

theorem ByName.pairwise_ofList (entries : List (String × α))
    : ((ofList entries).map Prod.fst).Pairwise (· < ·) := by
  have ordered := (Std.TreeMap.ofList entries).ordered_keys_toList
  rw [pairwise_map]
  exact ordered.imp fun less => compareOfLessAndEq_eq_lt.mp less

/-- If no name has two values, all entries are listed. -/
theorem ByName.mem_ofList [Inhabited α] {entries : List (String × α)}
    (one : ∀ e ∈ entries, ∀ e' ∈ entries, e.1 = e'.1 → e = e') {e : String × α}
    : e ∈ ofList entries ↔ e ∈ entries := by
  let value (name : String) : α := ((entries.find? fun e => e.1 = name).map Prod.snd).getD default
  have own : ∀ e ∈ entries, e.2 = value e.1 := by
    intro e member
    obtain ⟨e', found⟩ := Option.isSome_iff_exists.mp
      (find?_isSome.mpr ⟨e, member, by simp⟩ : (entries.find? fun other => other.1 = e.1).isSome)
    have same : e'.1 = e.1 := by simpa using find?_some found
    simp [value, found, one e' (mem_of_find?_eq_some found) e member same]
  obtain ⟨name, x⟩ := e
  rw [ofList, Std.TreeMap.mem_toList_iff_getElem?_eq_some, Std.TreeMap.ofList_eq_insertMany_empty,
    getElem?_insertMany value own]
  constructor
  · intro found
    split at found
    · rename_i listed
      obtain ⟨e, member, rfl⟩ := mem_map.mp listed
      rw [← Option.some.inj found, ← own e member]
      exact member
    · simp at found
  · intro member
    rw [if_pos (mem_map_of_mem (f := Prod.fst) member), ← own _ member]

namespace Report

variable {r : RunResult} (h : r.Sound)

include h

theorem lists_ofList [Inhabited α] (of : AnalyzerResult → Option α)
    : ByName.Lists r.results of
        (.ofList (r.results.filterMap fun a => (of a).map fun m => (a.kind.name, m))) := by
  have listed {name : String} {x : α}
      : (name, x) ∈ r.results.filterMap (fun a => (of a).map fun m => (a.kind.name, m))
        ↔ ∃ a ∈ r.results, a.kind.name = name ∧ of a = some x := by
    simp only [mem_filterMap, Option.map_eq_some_iff, Prod.mk.injEq]
    grind
  constructor
  · exact ByName.pairwise_ofList _
  · intro name x
    rw [ByName.mem_ofList, listed]
    rintro ⟨_, x⟩ left ⟨_, x'⟩ right rfl
    obtain ⟨a, there, own, here⟩ := listed.mp left
    obtain ⟨a', there', own', here'⟩ := listed.mp right
    obtain rfl := h.once a there a' there' (AnalyzerKind.name_injective (own.trans own'.symm))
    rw [Option.some.inj (here.symm.trans here')]

variable {id : NodeId} {e : ReportNode}

theorem isMeasured_iff : r.IsMeasured id ↔ ∃ a ∈ r.results, id ∈ a.nodes := by
  refine exists_congr fun a => and_congr_right fun member => ?_
  rw [Std.TreeMap.mem_iff_isSome_getElem?]
  cases found : a.nodes[id]? with
  | none => simp
  | some m => simpa using h.filled a member id m found

/-- There is an entry of a node if and only if it has metrics. -/
theorem entry_isSome_iff : (entry r id).isSome ↔ r.IsMeasured id := by
  have empty : (r.results.filterMap fun a => (a.nodes[id]?).map fun m => (a.kind.name, m)).isEmpty
      ↔ ¬ r.IsMeasured id := by
    simp [isMeasured_iff h]
  unfold entry
  by_cases measured : r.IsMeasured id
  · rw [if_neg (by rw [empty]; exact not_not.mpr measured)]
    simp [measured]
  · rw [if_pos (empty.mpr measured)]
    simp [measured]

/-- An entry has what all analyzers have to tell of a node. -/
theorem lists_of_entry {metrics : ByName MetricSet} {relations : ByName Relations}
    (found : entry r id = some (metrics, relations))
    : ByName.Lists r.results (fun a => a.nodes[id]?) metrics
      ∧ ByName.Lists r.results (fun a => a.relations[id]?) relations := by
  unfold entry at found
  dsimp only at found
  split at found
  · simp at found
  · obtain ⟨rfl, rfl⟩ := Prod.mk.inj (Option.some.inj found)
    exact ⟨lists_ofList h _, lists_ofList h _⟩

omit h in
theorem of_declaredNode? {n : Node} (found : declaredNode? r n = some e)
    : e.id = n.id.text ∧ e.isExternal = false ∧ entry r n.id = some (e.metrics, e.relations) := by
  obtain ⟨told, entry, made⟩ := Option.bind_eq_some_iff.mp found
  obtain rfl := Option.some.inj made
  exact ⟨rfl, rfl, entry⟩

omit h in
theorem of_externalNode? (found : externalNode? r id = some e)
    : e.id = id.text ∧ e.isExternal = true ∧ entry r id = some (e.metrics, e.relations) := by
  obtain ⟨told, entry, made⟩ := Option.bind_eq_some_iff.mp found
  obtain rfl := Option.some.inj made
  exact ⟨rfl, rfl, entry⟩

/-- Of some nodes those are listed that have metrics, in their order. -/
theorem map_id_filterMap (node? : α → Option ReportNode) (id : α → NodeId)
    (own : ∀ x, (node? x).map ReportNode.id = (entry r (id x)).map fun _ => (id x).text)
    (items : List α)
    : (items.filterMap node?).map ReportNode.id
      = ((items.map id).filter fun id => r.IsMeasured id).map NodeId.text := by
  induction items with
  | nil => rfl
  | cons x items ih =>
    have here := own x
    have measured : _ ↔ r.IsMeasured (id x) := entry_isSome_iff h
    cases found : entry r (id x) with
    | none =>
      rw [found] at here measured
      have nothing : node? x = none := by simpa using here
      have unmeasured : ¬ r.IsMeasured (id x) := by simpa using measured
      rw [filterMap_cons_none nothing, ih, map_cons, filter_cons_of_neg (by simpa using unmeasured)]
    | some told =>
      rw [found] at here measured
      obtain ⟨e, some, same⟩ := Option.map_eq_some_iff.mp here
      rw [filterMap_cons_some some, map_cons, ih, same, map_cons,
        filter_cons_of_pos (by simpa using measured), map_cons]

theorem mem_externalIds
    : id ∈ externalIds r ↔ r.IsMeasured id ∧ id ∉ r.registry.toList.map Node.id := by
  have listed : id ∈ externalIds r ↔ r.IsMeasured id ∧ ¬ r.registry.isDeclared id := by
    rw [externalIds, Std.TreeSet.mem_toList, Std.TreeSet.mem_ofList, isMeasured_iff h]
    simp
  rw [listed]
  exact and_congr_right fun measured => not_congr (h.spelled id measured)

omit h in
theorem pairwise_externalIds : (externalIds r).Pairwise fun a b => a.text < b.text := by
  have ordered {ids : Std.TreeSet NodeId} : ids.toList.Pairwise fun a b => a.text < b.text :=
    ids.ordered_toList.imp fun less => compareOfLessAndEq_eq_lt.mp less
  exact ordered

/-- The identifiers of a report: those of the declared nodes with metrics, then the others. -/
theorem map_id_nodes (path : String)
    : (ofRun path r).nodes.map ReportNode.id
      = ((((r.registry.toList.filter Node.isUserDefined).map Node.id).filter fun id => r.IsMeasured id)
          ++ externalIds r).map NodeId.text := by
  have external : (externalIds r).filter (fun id => r.IsMeasured id) = externalIds r :=
    filter_eq_self.mpr fun id member => decide_eq_true ((mem_externalIds h).mp member).1
  have first := map_id_filterMap h (declaredNode? r) Node.id
    (fun n => by cases found : entry r n.id <;> simp [declaredNode?, found])
    (r.registry.toList.filter Node.isUserDefined)
  have second := map_id_filterMap h (externalNode? r) id
    (fun id => by cases found : entry r id <;> simp [externalNode?, found]) (externalIds r)
  rw [ofRun, map_append, first, second, map_id, external, map_append]

/-- Each node with metrics is listed once, and no other one is. -/
theorem count_map_id_nodes (path : String) (id : NodeId)
    : ((ofRun path r).nodes.map ReportNode.id).count id.text = if r.IsMeasured id then 1 else 0 := by
  have text : Function.Injective NodeId.text := fun a b same => by cases a; cases b; simp_all
  rw [map_id_nodes h, count_map_of_injective _ _ text, filter_eq_self.mpr h.own, Nodup.count]
  · refine if_congr ?_ rfl rfl
    rw [mem_append, mem_filter, mem_externalIds h, decide_eq_true_iff]
    tauto
  · refine nodup_append.mpr ⟨r.registry.ids_nodup.filter _, ?_, ?_⟩
    · refine pairwise_externalIds.imp fun {a b} less same => ?_
      exact String.lt_irrefl b.text (same ▸ less)
    · rintro id left _ right rfl
      exact ((mem_externalIds h).mp right).2 (mem_filter.mp left).1

/-- The entry of a node tells whether it is registered, and what each analyzer knows of it. -/
theorem of_mem_nodes {path : String} (member : e ∈ (ofRun path r).nodes)
    : (e.isExternal ↔ ⟨e.id⟩ ∉ r.registry.toList.map Node.id)
      ∧ ByName.Lists r.results (fun a => a.nodes[(⟨e.id⟩ : NodeId)]?) e.metrics
      ∧ ByName.Lists r.results (fun a => a.relations[(⟨e.id⟩ : NodeId)]?) e.relations := by
  rcases mem_append.mp member with own | other
  · obtain ⟨n, there, found⟩ := mem_filterMap.mp own
    obtain ⟨same, inside, entry⟩ := of_declaredNode? found
    have registered : n.id ∈ r.registry.toList.map Node.id := mem_map_of_mem (mem_filter.mp there).1
    rw [same, inside]
    exact ⟨by simp [registered], lists_of_entry h entry⟩
  · obtain ⟨id, there, found⟩ := mem_filterMap.mp other
    obtain ⟨same, outside, entry⟩ := of_externalNode? found
    rw [same, outside]
    exact ⟨by simp [((mem_externalIds h).mp there).2], lists_of_entry h entry⟩

end Report

/-- A report loses and repeats nothing. The results of a run without a cache tell what its analyzers
know after the walk. Exactly the nodes with metrics are listed, each of them once: first those that are
declared, in the order of their registration, and then the others in the order of their identifiers.
A node is external if and only if its identifier is not registered, and its entry has what each analyzer
has to tell of it.
-/
theorem report_lists_measured_nodes (parser : Parser) (kinds : List AnalyzerKind)
    (sources : List InputFile) (path : String) {result : RunResult}
    (ok : ((run parser kinds sources).run NoCache.mk).1 = .ok result)
    : let nodes := (Report.ofRun path result).nodes
      let registered := result.registry.toList.map Node.id
      (∃ analyzers, Forall₂ (Analyzer.After (result.units, result.registry)) kinds analyzers
        ∧ Forall₂ AnalyzerResult.Tells result.results analyzers)
      ∧ (∀ id : NodeId, (nodes.map ReportNode.id).count id.text = if result.IsMeasured id then 1 else 0)
      ∧ (∃ others : List NodeId, others.Pairwise (fun a b => a.text < b.text)
        ∧ (∀ id ∈ others, id ∉ registered)
        ∧ nodes.map ReportNode.id
          = ((((result.registry.toList.filter Node.isUserDefined).map Node.id).filter fun id =>
              result.IsMeasured id) ++ others).map NodeId.text)
      ∧ ∀ e ∈ nodes, (e.isExternal ↔ ⟨e.id⟩ ∉ registered)
        ∧ ByName.Lists result.results (fun a => a.nodes[(⟨e.id⟩ : NodeId)]?) e.metrics
        ∧ ByName.Lists result.results (fun a => a.relations[(⟨e.id⟩ : NodeId)]?) e.relations := by
  intro nodes registered
  obtain ⟨sound, ran⟩ := RunResult.sound_of_run ok
  exact ⟨ran, Report.count_map_id_nodes sound path, ⟨Report.externalIds result,
    Report.pairwise_externalIds, fun id member => ((Report.mem_externalIds sound).mp member).2,
    Report.map_id_nodes sound path⟩, fun e => Report.of_mem_nodes sound⟩

def heirs : List InputFile := [
  baseSource,
  ⟨"b.php", "<?php namespace Lib; class B extends \\APP\\a {}".toUTF8⟩,
  ⟨"c.php", "<?php namespace Lib; class C extends \\Ext\\D {}".toUTF8⟩]

/-- A namespace that is referred to by another spelling is listed as it is declared. One that is not
declared is the only external node.
-/
theorem report_lists_measured_nodes_heirs
    : ∃ result, heirRun heirs = .ok result
      ∧ let nodes := (Report.ofRun "src" result).nodes
        nodes.map ReportNode.id = ["App#n", "App\\A#c", "Lib#n", "Lib\\B#c", "Lib\\C#c", "Ext#n"]
        ∧ result.IsMeasured (.space "App") ∧ ¬ result.IsMeasured (.space "APP")
        ∧ ∀ e ∈ nodes, e.isExternal ↔ e.id = "Ext#n" := by
  have holds : (heirRun heirs).toOption.any fun a =>
      a.registry.toList.map Node.id
        = [⟨"App#n"⟩, ⟨"App\\A#c"⟩, ⟨"Lib#n"⟩, ⟨"Lib\\B#c"⟩, ⟨"Lib\\C#c"⟩]
      ∧ (Report.ofRun "src" a).nodes.map ReportNode.id
        = ["App#n", "App\\A#c", "Lib#n", "Lib\\B#c", "Lib\\C#c", "Ext#n"] := by
    decide +kernel
  cases ok : heirRun heirs with
  | error fault => simp [ok, Except.toOption] at holds
  | ok result =>
    rw [ok] at holds
    obtain ⟨registered, ids⟩ := of_decide_eq_true holds
    obtain ⟨_, count, _, entries⟩ := report_lists_measured_nodes _ _ _ "src" ok
    rw [ids] at count
    refine ⟨result, rfl, ids, ?_, fun measured => ?_, fun e member => ?_⟩
    · by_contra unmeasured
      have none := count (.space "App")
      rw [if_neg unmeasured] at none
      revert none
      decide +kernel
    · have once := count (.space "APP")
      rw [if_pos measured] at once
      revert once
      decide +kernel
    · have listed := ids ▸ mem_map_of_mem (f := ReportNode.id) member
      rw [(entries e member).1, registered]
      simp only [mem_cons, not_mem_nil, or_false] at listed
      rcases listed with same | same | same | same | same | same <;> simp [same]

end DesignMetrics
