import DesignMetrics.Metric.Dependency
import DesignMetrics.Proofs.Binding.Built
import DesignMetrics.Proofs.Traversal.Tour

/-! The graph of namespaces.
After any events of a walk, the dependencies of a namespace lead to namespaces with records of their
own, which know of it in turn.
-/

namespace DesignMetrics

def NamespaceNode.Named (n : NamespaceNode) : Prop := n.id = .ofKey n.name .space

theorem NamespaceNode.named_placeholder (name : String) : (placeholder name).Named := rfl

theorem Registry.named_namespaceNamed {r : Registry} (named : ∀ n, .space n ∈ r.toList → n.Named)
    (name : String) : (r.namespaceNamed name).Named := by
  unfold namespaceNamed
  split
  · rename_i found
    exact named _ (alike_of_node? found).1
  · exact NamespaceNode.named_placeholder name

variable {n : NamespaceNode}

/-- Binding names namespaces for their identifiers. -/
theorem named_of_mem_bindAll {files : List (SourceFile × String)}
    (member : .space n ∈ (bindAll ∅ files).2.toList) : n.Named := by
  obtain ⟨_, _, _, stands⟩ := stands_of_mem_bindAll member
  cases stands with
  | space d named isOpen => simp [NamespaceNode.Named, NodeId.space, isOpen]

namespace Dependency

variable {r : Registry} {d : Dependency}

/-- Whether the open scopes are those of namespaces with records. -/
def Opened (d : Dependency) : Prop := ∀ o ∈ d.scopes, o.space ∈ d.spaces

/-- Whether dependencies join records at both ends, and none joins a record to itself. -/
structure Linked (d : Dependency) : Prop where
  opened : d.Opened
  known : ∀ (a : NodeId) (s : NamespaceRecord), d.spaces[a]? = some s
    → (∀ b ∈ s.efferent, b ∈ d.spaces) ∧ ∀ b ∈ s.afferent, b ∈ d.spaces
  both : ∀ (a : NodeId) (s : NamespaceRecord) (b : NodeId) (t : NamespaceRecord),
    d.spaces[a]? = some s → d.spaces[b]? = some t → (b ∈ s.efferent ↔ a ∈ t.afferent)
  apart : ∀ (a : NodeId) (s : NamespaceRecord), d.spaces[a]? = some s → a ∉ s.efferent
  named : ∀ (a : NodeId) (s : NamespaceRecord), d.spaces[a]? = some s → a = .ofKey s.name .space

theorem getElem?_touch (n : NamespaceNode) (x : NodeId)
    : (d.touch n).spaces[x]?
      = if x = n.id ∧ n.id ∉ d.spaces then some { name := n.name } else d.spaces[x]? := by
  simp only [touch, Std.TreeMap.getElem?_insertIfNew, Std.LawfulEqOrd.compare_eq_iff_eq,
    eq_comm (a := x)]

/-- A record is an old one, or the new one without dependencies. -/
theorem cases_touch {a : NodeId} {s : NamespaceRecord} (h : (d.touch n).spaces[a]? = some s)
    : d.spaces[a]? = some s ∨ a = n.id ∧ a ∉ d.spaces ∧ s = { name := n.name } := by
  rw [getElem?_touch] at h
  split at h
  · rename_i fresh
    exact .inr ⟨fresh.1, fresh.1 ▸ fresh.2, (Option.some.inj h).symm⟩
  · exact .inl h

theorem mem_touch {x : NodeId} : x ∈ (d.touch n).spaces ↔ x = n.id ∨ x ∈ d.spaces := by
  simp only [touch, Std.TreeMap.mem_insertIfNew, Std.LawfulEqOrd.compare_eq_iff_eq,
    eq_comm (a := x)]

theorem getElem?_addEdge (source target x : NodeId)
    : (d.addEdge source target).spaces[x]?
      = (d.spaces[x]?).map fun s =>
          { s with
            efferent := if x = source then s.efferent.insert target else s.efferent
            afferent := if x = target then s.afferent.insert source else s.afferent } := by
  simp only [addEdge, Std.TreeMap.getElem?_modify, Std.LawfulEqOrd.compare_eq_iff_eq]
  cases found : d.spaces[x]? <;> by_cases out : source = x <;> by_cases back : target = x <;>
    simp_all [eq_comm (a := x)]

theorem mem_addEdge {source target x : NodeId}
    : x ∈ (d.addEdge source target).spaces ↔ x ∈ d.spaces := by
  simp only [addEdge, Std.TreeMap.mem_modify]

theorem mem_addType {t : TypeNode} {x : NodeId}
    : x ∈ (d.addType n t).spaces ↔ x = n.id ∨ x ∈ d.spaces := by
  rw [← mem_touch]
  simp [addType, Std.TreeMap.mem_modify]

namespace Opened

variable (h : d.Opened)

include h

/-- With fewer scopes and more records, the scopes still have records. -/
theorem mono {d' : Dependency} (scopes : d'.scopes ⊆ d.scopes) (spaces : ∀ x ∈ d.spaces, x ∈ d'.spaces)
    : d'.Opened :=
  fun o member => spaces _ (h o (scopes member))

theorem touch (n : NamespaceNode) : (d.touch n).Opened :=
  h.mono (List.Subset.refl _) fun _ known => mem_touch.mpr (.inr known)

theorem addType (n : NamespaceNode) (t : TypeNode) : (d.addType n t).Opened :=
  h.mono (List.Subset.refl _) fun _ known => mem_addType.mpr (.inr known)

theorem openScope {space : NodeId} (known : space ∈ d.spaces) (owner : Option NodeId)
    : (d.openScope space owner).Opened := by
  intro o member
  rcases List.mem_cons.mp member with rfl | outer
  · exact known
  · exact h o outer

end Opened

theorem mem_ite_insert {set : Std.TreeSet NodeId} {here : Prop} [Decidable here] {x new : NodeId}
    : x ∈ (if here then set.insert new else set) ↔ x ∈ set ∨ here ∧ x = new := by
  split <;> simp_all [Std.TreeSet.mem_insert, or_comm, eq_comm (a := x)]

namespace Linked

theorem start : Linked {} := by constructor <;> simp [Opened]

/-- A new record has no dependencies. -/
theorem touch (h : Linked d) (named : n.Named) : Linked (d.touch n) where
  opened := h.opened.touch n
  known a s found := by
    rcases cases_touch found with old | ⟨_, _, rfl⟩
    · exact ⟨fun b depends => mem_touch.mpr (.inr ((h.known a s old).1 b depends)),
        fun b needed => mem_touch.mpr (.inr ((h.known a s old).2 b needed))⟩
    · simp
  both a s b t left right := by
    rcases cases_touch left with source | ⟨_, new, rfl⟩ <;>
      rcases cases_touch right with target | ⟨_, fresh, rfl⟩
    · exact h.both a s b t source target
    · simpa using fun depends => fresh ((h.known a s source).1 b depends)
    · simpa using fun needed => new ((h.known b t target).2 a needed)
    · simp
  apart a s found := by
    rcases cases_touch found with old | ⟨_, _, rfl⟩
    · exact h.apart a s old
    · simp
  named a s found := by
    rcases cases_touch found with old | ⟨rfl, _, rfl⟩
    · exact h.named a s old
    · exact named

/-- A dependency is noted at both of its ends. -/
theorem addEdge (h : Linked d) {source target : NodeId} (left : source ∈ d.spaces)
    (right : target ∈ d.spaces) (other : target ≠ source) : Linked (d.addEdge source target) where
  opened := h.opened.mono (List.Subset.refl _) fun _ => mem_addEdge.mpr
  known a s found := by
    rw [getElem?_addEdge] at found
    obtain ⟨old, there, rfl⟩ := Option.map_eq_some_iff.mp found
    obtain ⟨out, back⟩ := h.known a old there
    constructor <;> intro b member <;> rw [mem_addEdge] <;>
      rcases mem_ite_insert.mp member with before | ⟨_, rfl⟩
    · exact out b before
    · exact right
    · exact back b before
    · exact left
  both a s b t at_a at_b := by
    rw [getElem?_addEdge] at at_a at_b
    obtain ⟨first, there, rfl⟩ := Option.map_eq_some_iff.mp at_a
    obtain ⟨last, here, rfl⟩ := Option.map_eq_some_iff.mp at_b
    rw [mem_ite_insert, mem_ite_insert, h.both a first b last there here, and_comm]
  apart a s found := by
    rw [getElem?_addEdge] at found
    obtain ⟨old, there, rfl⟩ := Option.map_eq_some_iff.mp found
    rw [mem_ite_insert, not_or]
    exact ⟨h.apart a old there, fun ⟨from_source, to_target⟩ => other (to_target.symm.trans from_source)⟩
  named a s found := by
    rw [getElem?_addEdge] at found
    obtain ⟨old, there, rfl⟩ := Option.map_eq_some_iff.mp found
    exact h.named a old there

theorem dependOn (named : ∀ n, .space n ∈ r.toList → n.Named) (h : Linked d) (t : TypeNode)
    : Linked (d.dependOn r t) := by
  unfold Dependency.dependOn
  split
  · exact h
  · rename_i top first
    dsimp only
    split
    · exact h
    · rename_i other
      have opened := h.opened top (List.mem_of_mem_head? first)
      exact (h.touch (Registry.named_namespaceNamed named _)).addEdge
        (mem_touch.mpr (.inr opened)) (mem_touch.mpr (.inl rfl)) other

theorem foldl_dependOn (named : ∀ n, .space n ∈ r.toList → n.Named) (h : Linked d)
    (types : List TypeNode) : Linked (types.foldl (Dependency.dependOn r) d) := by
  induction types generalizing d with
  | nil => exact h
  | cons t types ih => exact ih (h.dependOn named t)

/-- Counting a type changes no dependency. -/
theorem addType (h : Linked d) (named : n.Named) (t : TypeNode) : Linked (d.addType n t) := by
  have touched := h.touch named
  have record {a : NodeId} {s : NamespaceRecord} (found : (d.addType n t).spaces[a]? = some s)
      : ∃ old, (d.touch n).spaces[a]? = some old ∧ s.name = old.name ∧ s.efferent = old.efferent
        ∧ s.afferent = old.afferent := by
    have counted (old : NamespaceRecord) : (old.addType t).name = old.name
        ∧ (old.addType t).efferent = old.efferent ∧ (old.addType t).afferent = old.afferent := by
      unfold NamespaceRecord.addType
      split <;> exact ⟨rfl, rfl, rfl⟩
    simp only [Dependency.addType, Std.TreeMap.getElem?_modify,
      Std.LawfulEqOrd.compare_eq_iff_eq] at found
    split at found
    · rename_i same
      subst same
      obtain ⟨old, there, rfl⟩ := Option.map_eq_some_iff.mp found
      exact ⟨old, there, counted old⟩
    · exact ⟨s, found, rfl, rfl, rfl⟩
  constructor
  · exact h.opened.addType n t
  · intro a s found
    obtain ⟨old, there, _, out, back⟩ := record found
    simpa only [out, back, mem_addType, mem_touch] using touched.known a old there
  · intro a s b u at_a at_b
    obtain ⟨first, at_a, _, out, _⟩ := record at_a
    obtain ⟨last, at_b, _, _, back⟩ := record at_b
    rw [out, back]
    exact touched.both a first b last at_a at_b
  · intro a s found
    obtain ⟨old, there, _, out, _⟩ := record found
    exact out ▸ touched.apart a old there
  · intro a s found
    obtain ⟨old, there, name, _⟩ := record found
    exact name ▸ touched.named a old there

theorem openScope (h : Linked d) {space : NodeId} (known : space ∈ d.spaces) (owner : Option NodeId)
    : Linked (d.openScope space owner) where
  opened := h.opened.openScope known owner
  known := h.known
  both := h.both
  apart := h.apart
  named := h.named

theorem closeScopes (h : Linked d) {scopes : List DependencyScope} (fewer : scopes ⊆ d.scopes)
    : Linked { d with scopes } where
  opened := h.opened.mono fewer fun _ => id
  known := h.known
  both := h.both
  apart := h.apart
  named := h.named

/-- An event leaves the records linked. -/
theorem observe (named : ∀ n, .space n ∈ r.toList → n.Named) (h : Linked d) {e : Event}
    (here : ∀ n, e = .enter (.space n) → n.Named) : Linked (d.observe r e) := by
  cases e with
  | enter v =>
    refine foldl_dependOn named ?_ _
    cases v with
    | space n => exact h.touch (here n rfl)
    | type t =>
      exact (h.addType (Registry.named_namespaceNamed named _) t).openScope
        (mem_addType.mpr (.inl rfl)) _
    | function f =>
      exact (h.touch (Registry.named_namespaceNamed named _)).openScope (mem_touch.mpr (.inl rfl)) _
    | _ => exact h
  | leave v =>
    cases v with
    | unit u => exact h.closeScopes (List.nil_subset _)
    | type | function => exact h.closeScopes fun _ => List.mem_of_mem_tail
    | _ => exact h

theorem foldl_observe (named : ∀ n, .space n ∈ r.toList → n.Named) (h : Linked d) {events : List Event}
    (here : ∀ n, .enter (.space n) ∈ events → n.Named)
    : Linked (events.foldl (fun d e => d.observe r e) d) := by
  induction events generalizing d with
  | nil => exact h
  | cons e events ih =>
    exact ih (h.observe named fun n same => here n (by simp [same])) fun n member =>
      here n (List.mem_cons_of_mem _ member)

end Linked

/-- Whether a relation of a namespace lists other ones by their names: each one once, in the order of
their identifiers, and as many as a metric says.
-/
def Lists (d : Dependency) (id : NodeId) (relation metric : String) (ids : Std.TreeSet NodeId)
    : Prop :=
  ∃ names, (d.relations id).lookup relation = some names
    ∧ (d.nodeMetrics id).lookup metric = some (count names.length)
    ∧ names = ids.toList.map NodeId.key ∧ names.Nodup
    ∧ ids.toList.Pairwise fun a b => compare a b = .lt

namespace Linked

/-- A known namespace has the key of its identifier for a name. -/
theorem name_eq_key (h : Linked d) {id : NodeId} {s : NamespaceRecord} (found : d.spaces[id]? = some s)
    : s.name = id.key := by
  rw [h.named id s found, NodeId.key_ofKey]

theorem exists_record {id : NodeId} (known : id ∈ d.spaces) : ∃ s, d.spaces[id]? = some s :=
  Option.isSome_iff_exists.mp (Std.TreeMap.mem_iff_isSome_getElem?.mp known)

theorem names_eq (h : Linked d) {ids : List NodeId} (known : ∀ id ∈ ids, id ∈ d.spaces)
    : d.names ids = ids.map NodeId.key := by
  induction ids with
  | nil => rfl
  | cons id ids ih =>
    obtain ⟨s, found⟩ := exists_record (known id (by simp))
    have rest := ih fun x member => known x (List.mem_cons_of_mem _ member)
    rw [names] at rest ⊢
    simp [found, h.name_eq_key found, rest]

/-- Known namespaces have names of their own. -/
theorem nodup_keys (h : Linked d) {ids : Std.TreeSet NodeId} (known : ∀ id ∈ ids, id ∈ d.spaces)
    : (ids.toList.map NodeId.key).Nodup := by
  rw [List.Nodup, List.pairwise_map]
  refine (List.Pairwise.and_mem.mp ids.distinct_toList).imp ?_
  rintro a b ⟨left, right, different⟩ same
  obtain ⟨s, at_a⟩ := exists_record (known a (Std.TreeSet.mem_toList.mp left))
  obtain ⟨t, at_b⟩ := exists_record (known b (Std.TreeSet.mem_toList.mp right))
  have equal : a = b := by
    rw [h.named a s at_a, h.named b t at_b, h.name_eq_key at_a, h.name_eq_key at_b, same]
  exact different (by simp [equal])

theorem lists (h : Linked d) {id : NodeId} {relation metric : String} {ids : Std.TreeSet NodeId}
    (known : ∀ x ∈ ids, x ∈ d.spaces)
    (related : (d.relations id).lookup relation = some (d.names ids.toList))
    (counted : (d.nodeMetrics id).lookup metric = some (count ids.size))
    : d.Lists id relation metric ids := by
  have keys : d.names ids.toList = ids.toList.map NodeId.key :=
    h.names_eq fun x member => known x (Std.TreeSet.mem_toList.mp member)
  refine ⟨_, related, ?_, keys, keys ▸ h.nodup_keys known, ids.ordered_toList⟩
  rw [counted, keys, List.length_map, Std.TreeSet.length_toList]

end Linked

end Dependency

/-- After every event of a walk over bound files, the dependencies of a namespace lead to namespaces
with a record, which know of it in turn, and never to itself. The lists of both directions hold every
namespace once, by a name that its identifier determines and in the order of identifiers, so they are
as long as the metrics say.
-/
theorem dependencies_link_records (files : List (SourceFile × String))
    (units : List CompilationUnit) (depth : Nat) (events : List Event)
    (begun : events <+: (Walk.unitsTo (bindAll ∅ files).2 depth units).events)
    : let r := (bindAll ∅ files).2
      let d := events.foldl (fun d e => d.observe r e) ({} : Dependency)
      ∀ (a : NodeId) (s : NamespaceRecord), d.spaces[a]? = some s
        → ((∀ b ∈ s.efferent, b ∈ d.spaces) ∧ ∀ b ∈ s.afferent, b ∈ d.spaces)
          ∧ (∀ (b : NodeId) (t : NamespaceRecord), d.spaces[b]? = some t
              → (b ∈ s.efferent ↔ a ∈ t.afferent))
          ∧ a ∉ s.efferent
          ∧ s.name = a.key
          ∧ d.Lists a "efferent" "ce" s.efferent ∧ d.Lists a "afferent" "ca" s.afferent := by
  intro r d a s found
  have named : ∀ n, .space n ∈ r.toList → n.Named := fun n member => named_of_mem_bindAll member
  have linked : d.Linked := Dependency.Linked.start.foldl_observe named fun n member =>
    Walk.visits_spaces named (Registry.named_namespaceNamed named) depth units _
      (begun.subset member) n rfl
  have known := linked.known a s found
  refine ⟨known, fun b t there => linked.both a s b t found there, linked.apart a s found,
    linked.name_eq_key found, linked.lists known.1 ?_ ?_, linked.lists known.2 ?_ ?_⟩
  · cases cycle : d.cycle? a <;> simp [Dependency.relations, found, cycle, List.lookup_cons]
  · simp [Dependency.nodeMetrics, found, NamespaceRecord.metrics, List.lookup_cons]
  · simp [Dependency.relations, found]
  · simp [Dependency.nodeMetrics, found, NamespaceRecord.metrics, List.lookup_cons]

def across : SourceFile :=
  ⟨"a.php", [.inNamespace ⟨some "App", [.classDecl ⟨"App\\A", .none, none, [], [.method ⟨"m",
      .isPublic, [], none, [], some [.expr (.newObject (.type (.named "Lib\\B")) [])], ⟨2, 4⟩⟩],
      ⟨1, 5⟩⟩], ⟨1, 5⟩⟩]⟩

/-- In the middle of the method its namespace depends on the other one, which is not declared. -/
theorem dependencies_link_across
    : let r := (bindAll ∅ [(across, "")]).2
      let walk := Walk.unitsTo r 1 (bindAll ∅ [(across, "")]).1
      let d := (walk.events.take 6).foldl (fun d e => d.observe r e) ({} : Dependency)
      walk.events.take 6 <+: walk.events
      ∧ ∃ s t, d.spaces[NodeId.space "App"]? = some s ∧ d.spaces[NodeId.space "Lib"]? = some t
        ∧ .space "App" ∈ t.afferent ∧ t.name = "Lib"
        ∧ (d.relations (.space "App")).lookup "efferent" = some ["Lib"]
        ∧ (d.nodeMetrics (.space "App")).lookup "ce" = some (count 1) := by
  intro r walk d
  have begun : walk.events.take 6 <+: walk.events := List.take_prefix 6 _
  have linked :=
    dependencies_link_records [(across, "")] (bindAll ∅ [(across, "")]).1 1 _ begun
  obtain ⟨s, app⟩ : ∃ s, d.spaces[NodeId.space "App"]? = some s :=
    Option.isSome_iff_exists.mp (by decide +kernel)
  obtain ⟨t, lib⟩ : ∃ t, d.spaces[NodeId.space "Lib"]? = some t :=
    Option.isSome_iff_exists.mp (by decide +kernel)
  have depends : s.efferent.toList = [.space "Lib"] := by
    have there : d.spaces[NodeId.space "App"]?.map (fun s => s.efferent.toList)
        = some [.space "Lib"] := by decide +kernel
    simpa [app] using there
  obtain ⟨_, both, _, _, ⟨names, related, counted, listed, _⟩, _⟩ := linked _ s app
  obtain ⟨_, _, _, name, _⟩ := linked _ t lib
  have listed : names = ["Lib"] := by
    rw [listed, depends]
    decide +kernel
  subst listed
  refine ⟨begun, s, t, app, lib, ?_, name.trans (by decide +kernel), related, counted⟩
  exact (both _ t lib).mp (Std.TreeSet.mem_toList.mp (by simp [depends]))

end DesignMetrics
