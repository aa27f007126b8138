import Mathlib.Data.Finset.Card
import DesignMetrics.Proofs.Metric.Completion
import DesignMetrics.Proofs.Metric.NamespaceGraph
import DesignMetrics.Proofs.Registry.Agreement

/-! Spellings of namespaces.
A namespace may be declared in several spellings, and each of them is a namespace of its own. A name
that is not declared as it is written stands for the first spelling that is, or for itself. So a
namespace is counted twice, or depends on itself under another name, only if both spellings are
declared or none is.
-/

namespace DesignMetrics

-- Looking up namespaces

/-- Names that differ only in case have identifiers that do. -/
theorem NodeId.alike_space {a b : String} (h : Text.lower a = Text.lower b)
    : (space a).Alike (space b) := by
  have lengths : a.toList.length = b.toList.length := by
    simpa using congrArg List.length (Text.lower_eq_iff.mp h)
  have empty (s : String) : s.isEmpty = true ↔ s.toList.length = 0 := by
    rw [String.isEmpty_iff, List.length_eq_zero_iff, String.toList_eq_nil_iff]
  simp only [space, empty, lengths]
  split
  · exact .refl _
  · exact alike_ofKey_iff.mpr ⟨rfl, .inr ⟨by simp, h⟩⟩

variable {id : NodeId}

namespace Registry

variable {r : Registry}

def spellingsOf (r : Registry) (id : NodeId) : List NodeId :=
  (r.toList.map Node.id).filter fun other => other.Alike id

theorem mem_spellingsOf {other : NodeId}
    : other ∈ r.spellingsOf id ↔ other ∈ r.toList.map Node.id ∧ other.Alike id := by
  simp [spellingsOf]

theorem spellingsOf_congr {a b : NodeId} (h : a.Alike b) : r.spellingsOf a = r.spellingsOf b := by
  refine List.filter_congr fun other _ => ?_
  exact decide_eq_decide.mpr ⟨fun left => left.trans h, fun right => right.trans h.symm⟩

def IsSpelling (r : Registry) (id : NodeId) : Prop := id ∈ r.spellingsOf id ∨ r.spellingsOf id = []

/-- Two spellings are both registered, or none is. -/
theorem IsSpelling.both {a b : NodeId} (left : r.IsSpelling a) (right : r.IsSpelling b)
    (alike : a.Alike b) : a ∈ r.spellingsOf a ∧ b ∈ r.spellingsOf a ∨ r.spellingsOf a = [] := by
  rw [IsSpelling, ← spellingsOf_congr alike] at right
  rcases left with first | none
  · rcases right with second | none
    · exact .inl ⟨first, second⟩
    · exact .inr none
  · exact .inr none

section

variable (named : ∀ n ∈ r.toList, ∃ key, n.id = .ofKey key n.kind)

include named

/-- Only namespaces have identifiers like those of namespaces. -/
theorem space_of_alike {n : Node} (member : n ∈ r.toList) {name : String}
    (alike : n.id.Alike (.space name)) : ∃ m, n = .space m := by
  obtain ⟨key, own⟩ := named n member
  rw [own, NodeId.space] at alike
  have space := Node.isSpace_iff.mpr alike.kind_eq
  cases n with
  | space m => exact ⟨m, rfl⟩
  | _ => simp [Node.isSpace] at space

/-- A namespace is found under the spelling that is asked for, or else under the first one that is
declared; a placeholder keeps the spelling.
-/
theorem namespaceNamed_id (name : String)
    : (r.namespaceNamed name).id
      = if .space name ∈ r.spellingsOf (.space name) then .space name
        else (r.spellingsOf (.space name)).head?.getD (.space name) := by
  have head : (r.spellingsOf (.space name)).head?
      = (r.toList.find? fun n => n.id.Alike (.space name)).map Node.id := by
    rw [spellingsOf, List.head?_filter, List.find?_map]
    rfl
  have found {n : Node} (there : r.node? (.space name) = some n) : (r.namespaceNamed name).id = n.id := by
    obtain ⟨member, alike⟩ := alike_of_node? there
    obtain ⟨m, rfl⟩ := space_of_alike named member alike
    simp [namespaceNamed, there, Node.id]
  split
  · rename_i own
    obtain ⟨n, member, same⟩ := List.mem_map.mp (mem_spellingsOf.mp own).1
    exact (found (same ▸ node?_of_mem member)).trans same
  · rename_i other
    have missing : (r.toList.find? fun n => n.id = .space name) = none := by
      rw [List.find?_eq_none]
      intro n member same
      have same : n.id = .space name := by simpa using same
      exact other (mem_spellingsOf.mpr ⟨same ▸ List.mem_map_of_mem member, .refl _⟩)
    have node := node?_eq r (.space name)
    rw [missing, Option.none_or] at node
    rw [head, ← node]
    cases there : r.node? (.space name) with
    | some n => exact found there
    | none => simp [namespaceNamed, there, NamespaceNode.placeholder]

theorem isSpelling_namespaceNamed (name : String) : r.IsSpelling (r.namespaceNamed name).id := by
  rw [namespaceNamed_id named]
  split
  · exact .inl ‹_›
  · cases spelled : r.spellingsOf (.space name) with
    | nil => exact .inr spelled
    | cons first rest =>
      have member : first ∈ r.spellingsOf (.space name) := by simp [spelled]
      left
      rw [List.head?_cons, Option.getD_some, spellingsOf_congr (mem_spellingsOf.mp member).2]
      exact member

/-- Names that differ only in case stand for one namespace, wherever one of their spellings is
declared, if and only if no two declared namespaces differ only in case.
-/
theorem one_namespace_iff (own : ∀ n, .space n ∈ r.toList → n.Named ∧ n.id = .space n.name)
    : (∀ a b, Text.lower a = Text.lower b → r.spellingsOf (.space a) ≠ []
        → (r.namespaceNamed a).id = (r.namespaceNamed b).id)
      ↔ ∀ m n, .space m ∈ r.toList → .space n ∈ r.toList → m.id.Alike n.id → m.id = n.id := by
  constructor
  · intro one m n left right alike
    have spelled {x : NamespaceNode} (there : .space x ∈ r.toList)
        : .space x.name ∈ r.spellingsOf (.space x.name) := by
      rw [← (own x there).2]
      exact mem_spellingsOf.mpr ⟨List.mem_map_of_mem (f := Node.id) there, .refl _⟩
    have lower : Text.lower m.name = Text.lower n.name := by
      rw [(own m left).1, (own n right).1] at alike
      rcases (NodeId.alike_ofKey_iff.mp alike).2 with same | ⟨_, same⟩
      · rw [same]
      · exact same
    have same := one _ _ lower (List.ne_nil_of_mem (spelled left))
    rw [namespaceNamed_id named, namespaceNamed_id named, if_pos (spelled left),
      if_pos (spelled right)] at same
    rw [(own m left).2, (own n right).2, same]
  · intro once a b same spelled
    have only : ∀ x ∈ r.spellingsOf (.space a), ∀ y ∈ r.spellingsOf (.space a), x = y := by
      intro x left y right
      obtain ⟨at_x, alike_x⟩ := mem_spellingsOf.mp left
      obtain ⟨at_y, alike_y⟩ := mem_spellingsOf.mp right
      obtain ⟨m, there, rfl⟩ := List.mem_map.mp at_x
      obtain ⟨n, here, rfl⟩ := List.mem_map.mp at_y
      obtain ⟨m, rfl⟩ := space_of_alike named there alike_x
      obtain ⟨n, rfl⟩ := space_of_alike named here alike_y
      exact once m n there here (alike_x.trans alike_y.symm)
    obtain ⟨first, rest, split⟩ := List.exists_cons_of_ne_nil spelled
    have found (name : String) (alike : (NodeId.space a).Alike (.space name))
        : (r.namespaceNamed name).id = first := by
      rw [namespaceNamed_id named, ← spellingsOf_congr alike]
      split
      · rename_i there
        exact only _ there _ (by simp [split])
      · rw [split, List.head?_cons, Option.getD_some]
    rw [found a (.refl _), found b (NodeId.alike_space same)]

end

end Registry

-- Counting namespaces

variable {n : NamespaceNode}

namespace NodeCount

variable {r : Registry} {c c' : NodeCount}

/-- The namespaces that have a record. -/
def spaces (c : NodeCount) : Finset NodeId :=
  (c.nodeIds.filter fun id => id.kind? = some .space).toFinset

@[simp] theorem mem_spaces : id ∈ c.spaces ↔ id ∈ c.records ∧ id.kind? = some .space := by
  simp [spaces, nodeIds]

def NumbersSpaces (c : NodeCount) : Prop := c.namespaces = c.spaces.card

namespace NumbersSpaces

theorem start : NumbersSpaces {} := rfl

variable (h : c.NumbersSpaces)

include h

theorem congr (number : c'.namespaces = c.namespaces)
    (same : ∀ id, id.kind? = some .space → (id ∈ c'.records ↔ id ∈ c.records)) : c'.NumbersSpaces := by
  have spaces : c'.spaces = c.spaces := by
    ext id
    rw [mem_spaces, mem_spaces]
    exact and_congr_left (same id)
  exact number.trans (spaces ▸ h)

theorem touch (space : n.id.kind? = some .space) : (c.touch n).NumbersSpaces := by
  have spaces : (c.touch n).spaces = insert n.id c.spaces := by
    ext id
    simp only [mem_spaces, mem_touch, Finset.mem_insert]
    grind
  have number : c.namespaces = c.spaces.card := h
  rw [NumbersSpaces, spaces]
  by_cases known : n.id ∈ c.records
  · rw [Finset.insert_eq_of_mem (by simp [known, space]), ← number]
    simp [NodeCount.touch, known]
  · rw [Finset.card_insert_of_notMem (by simp [known]), ← number]
    simp [NodeCount.touch, known]

theorem bump (space : n.id.kind? = some .space) (add : NodeCountRecord → NodeCountRecord)
    : (c.bump n add).NumbersSpaces :=
  (h.touch space).congr rfl fun id _ => by simp [mem_bump, mem_touch]

/-- An event leaves the number of namespaces right. -/
theorem observe (yields : ∀ name, (r.namespaceNamed name).id.kind? = some .space)
    {e : Event} (spaces : ∀ n, e = .enter (.space n) → n.id.kind? = some .space)
    (types : ∀ t, e = .enter (.type t) → t.id.kind? ≠ some .space) (step : c.observe r e = .ok c')
    : c'.NumbersSpaces := by
  unfold NodeCount.observe at step
  split at step
  · obtain rfl := Except.ok.inj step
    exact h.touch (spaces _ rfl)
  · rename_i t
    obtain rfl := Except.ok.inj step
    have fresh (id : NodeId) (space : id.kind? = some .space) : t.id ≠ id :=
      fun same => types t rfl (same ▸ space)
    unfold enterType
    split <;> refine bump ?_ (yields _) _ <;> refine h.congr rfl fun id space => ?_ <;>
      simp [initType, Std.TreeMap.mem_insert, fresh id space]
  · obtain ⟨_, _, _, rfl⟩ := enterMethod_ok step
    refine bump ?_ (yields _) _
    exact h.congr rfl fun id _ => by simp [Std.TreeMap.mem_modify]
  · obtain rfl := Except.ok.inj step
    refine bump ?_ (yields _) _
    exact h.congr rfl fun _ _ => .rfl
  · obtain rfl := Except.ok.inj step
    exact h

theorem foldlM_observe (yields : ∀ name, (r.namespaceNamed name).id.kind? = some .space)
    {events : List Event}
    (spaces : ∀ n, .enter (.space n) ∈ events → n.id.kind? = some .space)
    (types : ∀ t, .enter (.type t) ∈ events → t.id.kind? ≠ some .space)
    (run : events.foldlM (fun c e => c.observe r e) c = .ok c') : c'.NumbersSpaces := by
  induction events generalizing c with
  | nil =>
    obtain rfl := Except.ok.inj run
    exact h
  | cons e events ih =>
    obtain ⟨next, step, rest⟩ := foldlM_cons_ok run
    have one := h.observe yields (fun n same => spaces n (by simp [same]))
      (fun t same => types t (by simp [same])) step
    exact ih one (fun n member => spaces n (List.mem_cons_of_mem _ member))
      (fun t member => types t (List.mem_cons_of_mem _ member)) rest

end NumbersSpaces

end NodeCount

-- Namespaces with dependencies

namespace Dependency

variable {r : Registry} {d : Dependency} {P : NodeId → Prop}
  (yields : ∀ name, P (r.namespaceNamed name).id)

include yields

theorem all_dependOn (h : ∀ id ∈ d.spaces, P id) (t : TypeNode)
    : ∀ id ∈ (d.dependOn r t).spaces, P id := by
  unfold dependOn
  split
  · exact h
  · dsimp only
    split
    · exact h
    · intro id member
      rcases mem_touch.mp (mem_addEdge.mp member) with rfl | old
      · exact yields _
      · exact h id old

/-- Namespaces get records as the registry yields them or as they are entered. -/
theorem all_observe {e : Event} (own : ∀ n, e = .enter (.space n) → P n.id)
    (h : ∀ id ∈ d.spaces, P id)
    : ∀ id ∈ (d.observe r e).spaces, P id := by
  have touched {n : NamespaceNode} (here : P n.id) : ∀ id ∈ (d.touch n).spaces, P id := by
    intro id member
    rcases mem_touch.mp member with rfl | old
    · exact here
    · exact h id old
  cases e with
  | leave v => cases v <;> exact h
  | enter v =>
    have prepared : ∀ id ∈ (d.prepare r v).spaces, P id := by
      cases v with
      | space n => exact touched (own n rfl)
      | type t =>
        intro id member
        exact touched (yields _) id (Std.TreeMap.mem_modify.mp member)
      | function f => exact touched (yields _)
      | _ => exact h
    show ∀ id ∈ ((targets r ((d.prepare r v).currentType? r) v).foldl (dependOn r)
        (d.prepare r v)).spaces,
      P id
    generalize targets r ((d.prepare r v).currentType? r) v = types
    generalize d.prepare r v = d at prepared
    induction types generalizing d with
    | nil => exact prepared
    | cons t types ih => exact ih _ (all_dependOn yields prepared t)

theorem all_foldl_observe {events : List Event} (own : ∀ n, .enter (.space n) ∈ events → P n.id)
    (h : ∀ id ∈ d.spaces, P id)
    : ∀ id ∈ (events.foldl (fun d e => d.observe r e) d).spaces, P id := by
  induction events generalizing d with
  | nil => exact h
  | cons e events ih =>
    exact ih (fun n member => own n (List.mem_cons_of_mem _ member))
      (all_observe yields (fun n same => own n (by simp [same])) h)

end Dependency

-- After every event

/-- Binding registers a namespace under the identifier of its name, in the spelling of the source. -/
theorem space_name_of_mem_bindAll {files : List (SourceFile × String)}
    (member : .space n ∈ (bindAll ∅ files).2.toList) : n.id = .space n.name := by
  obtain ⟨_, _, _, stands⟩ := stands_of_mem_bindAll member
  cases stands with
  | space d named isOpen => rfl

/-- A namespace stands for the spelling that is asked for, or else for the first one that is declared,
and for itself if none is. So all spellings of declared namespaces stand for one if and only if no two
declared namespaces differ only in case. After every event of a walk over bound files, each spelling
that was entered counts for itself, and where two spellings are counted, or one depends on the other,
both are declared or none is.
-/
theorem namespace_spellings_apart (files : List (SourceFile × String))
    (units : List CompilationUnit) (depth : Nat) (events : List Event)
    (begun : events <+: (Walk.unitsTo (bindAll ∅ files).2 depth units).events)
    : let r := (bindAll ∅ files).2
      let d := events.foldl (fun d e => d.observe r e) ({} : Dependency)
      (∀ name, (r.namespaceNamed name).id
        = if .space name ∈ r.spellingsOf (.space name) then .space name
          else (r.spellingsOf (.space name)).head?.getD (.space name))
      ∧ ((∀ a b, Text.lower a = Text.lower b → r.spellingsOf (.space a) ≠ []
            → (r.namespaceNamed a).id = (r.namespaceNamed b).id)
          ↔ ∀ m n, .space m ∈ r.toList → .space n ∈ r.toList → m.id.Alike n.id → m.id = n.id)
      ∧ (∀ c, events.foldlM (fun c e => NodeCount.observe r e c) {} = .ok c
          → c.namespaces = c.spaces.card
            ∧ (∀ n, .enter (.space n) ∈ events → n.id ∈ c.spaces)
            ∧ ∀ a ∈ c.spaces, ∀ b ∈ c.spaces, a.Alike b
              → a ∈ r.spellingsOf a ∧ b ∈ r.spellingsOf a ∨ r.spellingsOf a = [])
      ∧ ∀ (a : NodeId) (s : NamespaceRecord), d.spaces[a]? = some s → ∀ b ∈ s.efferent, a.Alike b
          → a ∈ r.spellingsOf a ∧ b ∈ r.spellingsOf a ∨ r.spellingsOf a = [] := by
  intro r d
  have tidy : Tidy r := Tidy.empty.bindAll files
  have named : ∀ n, .space n ∈ r.toList → n.Named := fun n member => named_of_mem_bindAll member
  have yields := Registry.isSpelling_namespaceNamed tidy.named
  have kind {n : NamespaceNode} (own : n.Named) : n.id.kind? = some .space := by
    rw [show n.id = _ from own, NodeId.kind?_ofKey]
  have entered (n : NamespaceNode) (member : .enter (.space n) ∈ events)
      : n.Named ∧ r.IsSpelling n.id := by
    refine Walk.visits_spaces (P := fun n => n.Named ∧ r.IsSpelling n.id) (fun m there => ?_)
      (fun name => ⟨Registry.named_namespaceNamed named name, yields name⟩) depth units _
      (begun.subset member) n rfl
    exact ⟨named m there, .inl (Registry.mem_spellingsOf.mpr
      ⟨List.mem_map_of_mem (f := Node.id) there, .refl _⟩)⟩
  have types (t : TypeNode) (member : .enter (.type t) ∈ events) : t.id.kind? ≠ some .space := by
    have there := Walk.visits_registered r depth units _ (begun.subset member) (.type t) rfl
    obtain ⟨key, own⟩ := tidy.named _ there
    have own : t.id = .ofKey key t.kind.nodeKind := own
    cases kind : t.kind <;> simp [own, kind, TypeKind.nodeKind]
  refine ⟨Registry.namespaceNamed_id tidy.named, Registry.one_namespace_iff tidy.named fun n there =>
    ⟨named n there, space_name_of_mem_bindAll there⟩, fun c run => ?_,
    fun a s found b depends alike => ?_⟩
  · have number := NodeCount.NumbersSpaces.start.foldlM_observe
      (fun name => kind (Registry.named_namespaceNamed named name))
      (fun n member => kind (entered n member).1) types run
    have all (id : NodeId) (member : id ∈ c.spaces) : r.IsSpelling id := by
      obtain ⟨there, space⟩ := NodeCount.mem_spaces.mp member
      obtain ⟨e, taken, made⟩ := ((NodeCount.mem_foldlM_observe run).mp there).resolve_left (by simp)
      exact NodeCount.all_recorded (P := fun id => id.kind? = some .space → r.IsSpelling id)
        (fun name _ => yields name) (fun n enters _ => (entered n (enters ▸ taken)).2)
        (fun t enters space => absurd space (types t (enters ▸ taken))) id made space
    refine ⟨number, fun n member => ?_, fun a left b right alike => (all a left).both (all b right) alike⟩
    exact NodeCount.mem_spaces.mpr ⟨(NodeCount.mem_foldlM_observe run).mpr
      (.inr ⟨_, member, by simp [NodeCount.recorded]⟩), kind (entered n member).1⟩
  · have all : ∀ id ∈ d.spaces, r.IsSpelling id :=
      Dependency.all_foldl_observe yields (fun n member => (entered n member).2) (by simp)
    have linked : d.Linked := Dependency.Linked.start.foldl_observe named fun n member =>
      (entered n member).1
    have here : a ∈ d.spaces := Std.TreeMap.mem_iff_isSome_getElem?.mpr (by simp [found])
    exact (all a here).both (all b ((linked.known a s found).1 b depends)) alike

def respelled : SourceFile :=
  ⟨"a.php", [
    .inNamespace ⟨some "Foo", [.classDecl ⟨"Foo\\A", .none, none, [], [.method ⟨"m", .isPublic, [], none,
      [], some [.expr (.newObject (.type (.named "FOO\\B")) [])], ⟨2, 4⟩⟩], ⟨1, 5⟩⟩], ⟨1, 5⟩⟩,
    .inNamespace ⟨some "FOO", [.classDecl ⟨"FOO\\B", .none, none, [], [], ⟨7, 7⟩⟩], ⟨6, 8⟩⟩]⟩

/-- A third spelling stands for the first one. The two that are declared are both counted. -/
theorem namespace_spellings_apart_respelled
    : let r := (bindAll ∅ [(respelled, "")]).2
      let events := (Walk.unitsTo r 1 (bindAll ∅ [(respelled, "")]).1).events
      events <+: events
      ∧ (r.namespaceNamed "foo").id = .space "Foo"
      ∧ ∃ c, events.foldlM (fun c e => NodeCount.observe r e c) {} = .ok c
        ∧ c.spaces.card = 2
        ∧ (.space "Foo" ∈ r.spellingsOf (.space "Foo")
            ∧ .space "FOO" ∈ r.spellingsOf (.space "Foo")
          ∨ r.spellingsOf (.space "Foo") = []) := by
  intro r events
  obtain ⟨found, _, counted, _⟩ := namespace_spellings_apart [(respelled, "")]
    (bindAll ∅ [(respelled, "")]).1 1 events List.prefix_rfl
  have number : (events.foldlM (fun c e => NodeCount.observe r e c) {}).toOption.map
      NodeCount.namespaces = some 2 := by decide +kernel
  have known : (events.foldlM (fun c e => NodeCount.observe r e c) {}).toOption.any
      (fun c => decide (.space "Foo" ∈ c.records ∧ .space "FOO" ∈ c.records)) := by decide +kernel
  cases run : events.foldlM (fun c e => NodeCount.observe r e c) {} with
  | error fault => simp [run, Except.toOption] at number
  | ok c =>
    obtain ⟨size, _, both⟩ := counted c run
    rw [run] at number known
    have number : c.namespaces = 2 := by simpa [Except.toOption] using number
    have known : .space "Foo" ∈ c.records ∧ .space "FOO" ∈ c.records := by
      simpa [Except.toOption] using known
    refine ⟨List.prefix_rfl, (found "foo").trans (by decide +kernel), c, rfl, size ▸ number, ?_⟩
    exact both _ (NodeCount.mem_spaces.mpr ⟨known.1, by decide +kernel⟩) _
      (NodeCount.mem_spaces.mpr ⟨known.2, by decide +kernel⟩) (by decide +kernel)

/-- Namespaces that are declared in two spellings stand for themselves, count twice, and one depends on
the other. -/
theorem namespaces_counted_twice
    : let r := (bindAll ∅ [(respelled, "")]).2
      let events := (Walk.units r (bindAll ∅ [(respelled, "")]).1).events
      let d := events.foldl (fun d e => d.observe r e) ({} : Dependency)
      Text.lower "Foo" = Text.lower "FOO"
      ∧ (r.namespaceNamed "Foo").id ≠ (r.namespaceNamed "FOO").id
      ∧ (events.foldlM (fun c e => NodeCount.observe r e c) {}).toOption.map NodeCount.namespaces
        = some 2
      ∧ (d.spaces[NodeId.space "Foo"]?).map (fun s => s.efferent.toList) = some [.space "FOO"] := by
  refine ⟨by decide +kernel, by decide +kernel, by decide +kernel, by decide +kernel⟩

end DesignMetrics
