import DesignMetrics.Proofs.Binding.Built
import DesignMetrics.Proofs.Binding.Snapshots

/-! Conflicts with what is declared already.
The test for conflicts looks at the types and functions of a snapshot. The member of a class stands in
the way of a member of an interface with the same name, and the test does not see it. It sees everything
if no class is called like an interface and no name has a colon.
-/

namespace DesignMetrics

namespace Snapshot

def sharesMember (s : Snapshot) (r : Registry) : Bool :=
  s.nodes.any fun n => n.owner?.isSome && r.isDeclared n.id

end Snapshot

/-- Whether another registry has all nodes but namespaces as they are, and at the same places. -/
def Registry.KeptBy (r r' : Registry) : Prop :=
  ∀ (i : Nat) (n : Node), r.toList[i]? = some n → n.isSpace = false → r'.toList[i]? = some n

section

variable {file : SourceFile} {known : List NodeId} {r : Registry}

/-- Every declared node is one that the test looks at, or a member. -/
theorem Node.isDeclaration_or_owner {n : Node} (other : n.isSpace = false)
    : Snapshot.isDeclaration n ∨ n.owner?.isSome := by
  cases n with
  | space => simp [Node.isSpace] at other
  | type | function => exact .inl rfl
  | method | property => exact .inr rfl

/-- A snapshot shares a member exactly if one of its members is taken. -/
theorem SourceFile.sharesMember_iff (tracks : Tracks known r) (fingerprint : String)
    : (file.snapshot fingerprint).sharesMember r
      ↔ ∃ n ∈ declarations (file.draft []).outline.nodes, n.owner?.isSome ∧ Taken known n.id := by
  simp only [Snapshot.sharesMember, List.any_eq_true, Bool.and_eq_true, tracks.isDeclared_iff]
  refine file.exists_mem_snapshot_iff (fun n kind => ?_) fingerprint
  cases n with
  | space => simp [Node.owner?] at kind
  | type | function | method | property => rfl

/-- All declarations of a file are free exactly if there is no conflict and no shared member. -/
theorem SourceFile.free_iff (tracks : Tracks known r) (fingerprint : String)
    : (∀ n ∈ declarations (file.draft []).outline.nodes, ¬ Taken known n.id)
      ↔ (file.snapshot fingerprint).conflicts r = false
        ∧ (file.snapshot fingerprint).sharesMember r = false := by
  rw [Bool.eq_false_iff, Bool.eq_false_iff, ne_eq, ne_eq, file.conflicts_iff tracks,
    file.sharesMember_iff tracks]
  constructor
  · intro free
    constructor <;>
      rintro ⟨n, member, _, taken⟩ <;>
      exact free n member taken
  · rintro ⟨types, members⟩ n member taken
    rcases Node.isDeclaration_or_owner (mem_declarations.mp member).2 with kind | owned
    · exact types ⟨n, member, kind, taken⟩
    · exact members ⟨n, member, owned, taken⟩

/-- Nothing of a file is passed over exactly if all that it declares is free. -/
theorem SourceFile.shadowed_bind_iff (tracks : Tracks known r) (fingerprint : String)
    (clean : (file.draft []).shadowed = [])
    : (file.bind fingerprint r).1.shadowed = []
      ↔ ∀ n ∈ declarations (file.draft []).outline.nodes, ¬ Taken known n.id := by
  obtain ⟨r', ran, _⟩ := file.bind_eq tracks fingerprint
  rw [ran]
  constructor
  · intro none
    have same := SourceFile.draft_eq_of_clean none
    rw [same]
    exact file.steady_draft.fresh known
  · intro free
    have same := SourceFile.draft_eq_of_free clean free
    simp only [same, clean]

end

section

variable {r : Registry} {s : Snapshot}

/-- A node from the cache is not one that binding makes. -/
theorem Node.bare_withCached_ne (n : Node) : (n.withCached true).bare ≠ n.withCached true := by
  intro same
  have marks := congrArg Node.isCached same
  cases n <;> simp [Node.withCached, Node.isCached] at marks

/-- Attaching keeps the nodes that are there exactly if it has none with the same identifiers. -/
theorem Snapshot.keptBy_attach_iff (named : ∀ n ∈ r.toList, ∃ key, n.id = .ofKey key n.kind)
    (named' : ∀ n ∈ s.nodes, ∃ key, n.id = .ofKey key n.kind) (bare : ∀ n ∈ r.toList, n.bare = n)
    : r.KeptBy (s.attach r) ↔ ∀ n ∈ s.nodes, n.isSpace = false → r.contains n.id = false := by
  have filled : (s.attach r).toList = upsertAll r.toList (s.nodes.map (Node.withCached true)) :=
    Registry.toList_registerAll _ _
  constructor
  · intro keeps n member other
    rw [Bool.eq_false_iff, ne_eq, Registry.contains_iff]
    intro known
    obtain ⟨y, there, same⟩ := List.mem_map.mp known
    have other' : y.isSpace = false :=
      isSpace_of_alike (named' n member) (named y there) (same ▸ .refl _) other
    obtain ⟨i, here⟩ := List.getElem?_of_mem there
    have kept := Registry.node?_of_mem (List.mem_of_getElem? (keeps i y here other'))
    have marked : y.id ∈ (s.nodes.map (Node.withCached true)).map Node.id := by
      rw [same]
      exact List.mem_map.mpr ⟨n.withCached true, List.mem_map_of_mem member, n.id_withCached true⟩
    -- what is found under the identifier has been attached
    rw [Registry.node?_eq_latest? filled marked] at kept
    obtain ⟨m, _, rfl⟩ := List.mem_map.mp (mem_of_latest? kept).1
    exact m.bare_withCached_ne (bare _ there)
  · intro free i n here other
    obtain ⟨m, found, same, kept | added⟩ :=
      getElem?_upsertAll here (s.nodes.map (Node.withCached true))
    · rw [filled, found, kept]
    · obtain ⟨y, member, rfl⟩ := List.mem_map.mp added
      have there := List.mem_of_getElem? here
      rw [Node.id_withCached] at same
      have other' : y.isSpace = false :=
        isSpace_of_alike (named n there) (named' y member) (same ▸ .refl _) other
      have known : r.contains y.id := Registry.contains_iff.mpr (same ▸ List.mem_map_of_mem there)
      simp [free y member other'] at known

end

/-- The snapshot of a file that is free of shadowing by itself is attached or bound without shadowing
into what other files have left, if there is no conflict and no member is shared. The test for
conflicts alone is enough for plain files. -/
theorem unshadowed_iff_no_conflict (files : List (SourceFile × String)) (file : SourceFile)
    (fingerprint : String) (clean : (file.bind fingerprint ∅).1.shadowed = [])
    : let r := (bindAll ∅ files).2
      let s := Snapshot.collect (file.bind fingerprint ∅).1 (file.bind fingerprint ∅).2
      ((file.bind fingerprint r).1.shadowed = [] ↔ s.conflicts r = false ∧ s.sharesMember r = false)
      ∧ (r.KeptBy (s.attach r) ↔ ∀ n ∈ s.nodes, n.isSpace = false → r.contains n.id = false)
      ∧ (s.conflicts r = false → s.sharesMember r = false → r.KeptBy (s.attach r))
      ∧ (Plain (file :: files.map Prod.fst) → s.conflicts r = false → s.sharesMember r = false) := by
  intro r s
  have tidy : Tidy r := Tidy.empty.bindAll files
  obtain ⟨drafted, collected⟩ := SourceFile.collect_bind Tracks.empty fingerprint clean
  have snapshot : s = file.snapshot fingerprint := collected
  have bare (n : Node) (member : n ∈ r.toList) : n.bare = n := by
    obtain ⟨_, _, _, stands⟩ := stands_of_mem_bindAll member
    exact stands.bare_eq
  have named (n : Node) (member : n ∈ s.nodes) : ∃ key, n.id = .ofKey key n.kind := by
    rw [snapshot] at member
    obtain ⟨_, _, _, stands⟩ := file.mem_snapshot (List.mem_singleton_self file) member
    exact stands.id_eq
  have kept := Snapshot.keptBy_attach_iff tidy.named named bare
  have free := file.free_iff tidy.tracks fingerprint
  rw [← snapshot] at free
  refine ⟨?_, kept, fun types members => ?_, fun plain none => ?_⟩
  · rw [SourceFile.shadowed_bind_iff tidy.tracks fingerprint drafted, free]
  · rw [kept]
    intro n member other
    have declared : n ∈ declarations (file.draft []).outline.nodes := by
      rw [snapshot] at member
      exact file.mem_declarations_snapshot.mp (mem_declarations.mpr ⟨member, other⟩)
    rw [Bool.eq_false_iff, ne_eq, Registry.contains_iff]
    exact fun known => free.mpr ⟨types, members⟩ n declared (taken_of_mem known)
  · have sub := List.subset_cons_self file (files.map Prod.fst)
    obtain ⟨o, new, filled⟩ := bindAll_newIn sub Tracks.empty
    rw [snapshot] at none
    have all := plain.free_of_conflicts List.mem_cons_self new filled tidy.tracks none
    exact (free.mp all).2

def firstClass : SourceFile :=
  let method : Member := .method ⟨"m", .isPublic, [], none, [], some [], ⟨2, 2⟩⟩
  ⟨"a.php", [.classDecl ⟨"A", .none, none, [], [method], ⟨1, 3⟩⟩]⟩

def otherClass : SourceFile :=
  let inner : Stmt := .functionDecl ⟨"f", [], none, [], [], ⟨3, 3⟩⟩
  let method : Member := .method ⟨"m", .isPublic, [], none, [], some [inner], ⟨2, 4⟩⟩
  ⟨"b.php", [.classDecl ⟨"B", .none, some "A", [], [method], ⟨1, 5⟩⟩]⟩

theorem unshadowed_otherClass
    : let r := (bindAll ∅ [(firstClass, "")]).2
      let s := Snapshot.collect (otherClass.bind "" ∅).1 (otherClass.bind "" ∅).2
      (otherClass.bind "" ∅).1.shadowed = [] ∧ Plain [otherClass, firstClass]
        ∧ s.conflicts r = false ∧ (otherClass.bind "" r).1.shadowed = [] ∧ r.KeptBy (s.attach r) := by
  intro r s
  have clean : (otherClass.bind "" ∅).1.shadowed = [] := by decide +kernel
  have plain : Plain [otherClass, firstClass] := by decide +kernel
  have none : s.conflicts r = false := by decide +kernel
  obtain ⟨bound, _, attached, enough⟩ :=
    unshadowed_iff_no_conflict [(firstClass, "")] otherClass "" clean
  have members := enough plain none
  exact ⟨clean, plain, none, bound.mpr ⟨none, members⟩, attached none members⟩

def sameInterface : SourceFile :=
  let method : Member := .method ⟨"m", .isPublic, [], none, [], none, ⟨2, 2⟩⟩
  ⟨"b.php", [.interfaceDecl ⟨"A", [], [method], ⟨1, 3⟩⟩]⟩

/-- The method of the interface has the identifier of the method of the class. There is no conflict,
but binding passes it over, and attaching puts it in the place of the other. -/
theorem conflict_missed_sameInterface
    : let r := (bindAll ∅ [(firstClass, "")]).2
      let s := Snapshot.collect (sameInterface.bind "" ∅).1 (sameInterface.bind "" ∅).2
      (sameInterface.bind "" ∅).1.shadowed = [] ∧ s.conflicts r = false
        ∧ (sameInterface.bind "" r).1.shadowed = [.method "A" "m"] ∧ ¬ r.KeptBy (s.attach r) := by
  intro r s
  refine ⟨by decide +kernel, by decide +kernel, by decide +kernel, fun keeps => ?_⟩
  obtain ⟨n, here⟩ : ∃ n, r.toList[1]? = some n := Option.isSome_iff_exists.mp (by decide +kernel)
  have before : (r.toList[1]?).map (fun n => (n.isSpace, n.isCached)) = some (false, false) := by
    decide +kernel
  have after : ((s.attach r).toList[1]?).map Node.isCached = some true := by decide +kernel
  rw [here] at before
  obtain ⟨other, built⟩ : n.isSpace = false ∧ n.isCached = false := by simpa using before
  rw [keeps 1 n here other] at after
  simp [built] at after

end DesignMetrics
