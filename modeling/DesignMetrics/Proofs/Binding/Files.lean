import DesignMetrics.Proofs.Binding.Formed
import DesignMetrics.Proofs.Binding.Simulation

/-! Files that are bound one after the other into an empty registry.
The registry holds the nodes of one outline, and the markers left in the units are those of what no
other declaration contains.
-/

namespace DesignMetrics

def SourceFile.draft (file : SourceFile) (known : List NodeId) : Drafted (List Stmt) :=
  draftStmts file.path known file.statements

/-- Binds files one after the other; each comes with the fingerprint of its content. -/
def bindAll (r : Registry) : List (SourceFile × String) → List CompilationUnit × Registry
  | [] => ([], r)
  | (file, fingerprint) :: rest =>
    let (unit, r) := file.bind fingerprint r
    let (units, r) := bindAll r rest
    (unit :: units, r)

/-- The parts of files that have the given path. -/
def Sourced (files : List SourceFile) (path : String) (p : Part) : Prop :=
  ∃ file ∈ files, file.path = path ∧ p ∈ file.parts

variable {files : List SourceFile}

theorem Sourced.unbound (h : ∀ file ∈ files, file.Unbound) (path : String) (p : Part)
    (sourced : Sourced files path p) : p.marker? = none := by
  obtain ⟨file, member, _, inside⟩ := sourced
  exact h file member p inside

variable {file : SourceFile}

theorem SourceFile.sourced (member : file ∈ files)
    : ∀ s ∈ file.statements, s.Everywhere (Sourced files file.path) :=
  fun s inside p found => ⟨file, member, rfl, file.everywhere s inside p found⟩

/-- A drafted file has the markers of what its draft declares directly. -/
theorem SourceFile.marks_draft (h : ∀ file ∈ files, file.Unbound) (member : file ∈ files)
    (known : List NodeId)
    : Outline.Marks (Sourced files) known (markersIn (file.draft known).value)
        (file.draft known).outline :=
  marks_draftStmts known fun s inside =>
    marks_draftStmt (Sourced.unbound h) s (file.sourced member s inside)

theorem SourceFile.assembled (member : file ∈ files)
    : Assembled (Sourced files) none file.nest file.draft :=
  assembled_draftStmts fun s inside => assembled_draftStmt s (file.sourced member s inside)

/-- The draft of a file is new, and no member stands outside its type. -/
theorem SourceFile.newIn_draft (member : file ∈ files) (known : List NodeId)
    : (file.draft known).outline.NewIn (Sourced files) none known :=
  (file.assembled member).newIn known

variable {known : List NodeId} {r : Registry} {o : Outline} {pairs : List (SourceFile × String)}
  {n : Node}

/-- A file is bound as it is drafted. -/
theorem SourceFile.bind_eq (tracks : Tracks known r) (fingerprint : String)
    : ∃ r' : Registry,
        file.bind fingerprint r
          = (⟨file.path, fingerprint, (file.draft known).value, (file.draft known).outline.ids,
              (file.draft known).shadowed⟩, r')
        ∧ r'.toList = upsertAll r.toList (file.draft known).outline.nodes
        ∧ Tracks (known ++ (file.draft known).outline.ids) r' := by
  have performs : Performs known (Binding.bindStmts file.path file.statements) (file.draft known) :=
    performs_bindStmts known fun s _ => performs_bindStmt s
  obtain ⟨r', ran, nodes, own⟩ := performs { registry := r } tracks
  refine ⟨r', ?_, nodes, tracks.upsertAll nodes own⟩
  simp only [SourceFile.bind]
  rw [ran]
  simp

/-- What binding files leaves behind: units and a registry with the nodes of an outline. -/
structure Bound (files : List SourceFile) (known : List NodeId) (before : Registry)
    (bound : List CompilationUnit × Registry) (o : Outline) : Prop where
  marks : o.Marks (Sourced files) known (bound.1.flatMap fun u => markersIn u.statements)
  nodes : bound.2.toList = upsertAll before.toList o.nodes
  declared : bound.1.flatMap CompilationUnit.declared = o.ids
  drafted : ∀ u ∈ bound.1, ∃ file ∈ files, ∃ known, u.statements = (file.draft known).value

theorem Bound.cons (h : ∀ file ∈ files, file.Unbound) {file : SourceFile} (member : file ∈ files)
    {unit : CompilationUnit} (same : unit.statements = (file.draft known).value)
    (declared : unit.declared = (file.draft known).outline.ids) {r' : Registry}
    (nodes : r'.toList = upsertAll r.toList (file.draft known).outline.nodes)
    {bound : List CompilationUnit × Registry}
    (others : Bound files (known ++ (file.draft known).outline.ids) r' bound o)
    : Bound files known r (unit :: bound.1, bound.2) ((file.draft known).outline ++ o) where
  marks := by
    rw [List.flatMap_cons, same]
    exact (file.marks_draft h member known).append others.marks
  nodes := by rw [others.nodes, nodes, Outline.nodes_append, upsertAll_append]
  declared := by rw [List.flatMap_cons, others.declared, declared, Outline.ids_append]
  drafted u inside := by
    rcases List.mem_cons.mp inside with rfl | later
    · exact ⟨file, member, known, same⟩
    · exact others.drafted u later

section

variable (unbound : ∀ file ∈ files, file.Unbound) (sub : pairs.map Prod.fst ⊆ files)
  (tracks : Tracks known r)

include unbound sub tracks

/-- Files are bound as they are drafted, by induction on the files with what is bound before. Every entry
of the outline is one in the draft of a file, whose unit has what the draft declares and shadows. -/
theorem bindAll_drafted
    : ∃ o, Bound files known r (bindAll r pairs) o
      ∧ ∀ e ∈ o.entries, ∃ source ∈ pairs.zip (bindAll r pairs).1, ∃ before,
        source.2.declared = (source.1.1.draft before).outline.ids
        ∧ source.2.shadowed = (source.1.1.draft before).shadowed
        ∧ e ∈ (source.1.1.draft before).outline.entries := by
  induction pairs generalizing known r with
  | nil => exact ⟨.done, ⟨.done, rfl, rfl, by simp [bindAll]⟩, by simp⟩
  | cons pair rest ih =>
    obtain ⟨file, fingerprint⟩ := pair
    obtain ⟨r', ran, nodes, tracks'⟩ := file.bind_eq tracks fingerprint
    obtain ⟨o, others, drafted⟩ := ih (fun f inside => sub (List.mem_cons_of_mem _ inside)) tracks'
    simp only [bindAll, ran]
    refine ⟨_, .cons unbound (sub (by simp)) rfl rfl nodes others, fun e entry => ?_⟩
    rw [Outline.entries_append, List.mem_append] at entry
    rcases entry with here | later
    · exact ⟨_, List.mem_cons_self, known, rfl, rfl, here⟩
    · obtain ⟨source, member, found⟩ := drafted e later
      exact ⟨source, List.mem_cons_of_mem _ member, found⟩

theorem bindAll_bound : ∃ o, Bound files known r (bindAll r pairs) o := by
  obtain ⟨o, bound, _⟩ := bindAll_drafted unbound sub tracks
  exact ⟨o, bound⟩

end

theorem bindAll_empty_bound (files : List (SourceFile × String))
    (h : ∀ file ∈ files, file.1.Unbound) : ∃ o, Bound (files.map Prod.fst) [] ∅ (bindAll ∅ files) o :=
  bindAll_bound (by simpa using h) (fun _ member => member) Tracks.empty

/-- Files that may have markers already leave the nodes of a new outline behind. -/
theorem bindAll_newIn (sub : pairs.map Prod.fst ⊆ files) (tracks : Tracks known r)
    : ∃ o : Outline, o.NewIn (Sourced files) none known
      ∧ (bindAll r pairs).2.toList = upsertAll r.toList o.nodes := by
  induction pairs generalizing known r with
  | nil => exact ⟨.done, .done, rfl⟩
  | cons pair rest ih =>
    obtain ⟨file, fingerprint⟩ := pair
    obtain ⟨r', ran, nodes, tracks'⟩ := file.bind_eq tracks fingerprint
    obtain ⟨o, new, filled⟩ := ih (fun f inside => sub (List.mem_cons_of_mem _ inside)) tracks'
    refine ⟨(file.draft known).outline ++ o, (file.newIn_draft (sub (by simp)) known).append new, ?_⟩
    simp only [bindAll, ran]
    rw [filled, nodes, Outline.nodes_append, upsertAll_append]

def declarations (nodes : List Node) : List Node := nodes.filter fun n => !n.isSpace

@[simp] theorem declarations_nil : declarations [] = [] := rfl

@[simp] theorem declarations_append (nodes more : List Node)
    : declarations (nodes ++ more) = declarations nodes ++ declarations more :=
  List.filter_append nodes more

variable {nodes : List Node}

theorem mem_declarations : n ∈ declarations nodes ↔ n ∈ nodes ∧ n.isSpace = false := by
  simp [declarations]

theorem declarations_cons_of_space (space : n.isSpace)
    : declarations (n :: nodes) = declarations nodes := by
  simp [declarations, space]

theorem declarations_cons (other : n.isSpace = false)
    : declarations (n :: nodes) = n :: declarations nodes := by
  simp [declarations, other]

theorem Registry.nodup_declarations (r : Registry) : ((declarations r.toList).map Node.id).Nodup :=
  r.ids_nodup.sublist (List.filter_sublist.map _)

theorem pair_sublist_declarations {x y : Node} (h : [x, y].Sublist nodes) (left : x.isSpace = false)
    (right : y.isSpace = false) : [x, y].Sublist (declarations nodes) := by
  have kept : declarations [x, y] = [x, y] := by simp [declarations, left, right]
  exact kept ▸ h.filter fun n : Node => !n.isSpace

/-- Registering a namespace leaves the other nodes as they are. -/
theorem declarations_upsert_of_space {new : Node} (space : new.isSpace)
    (apart : ∀ n ∈ nodes, n.id = new.id → n.isSpace)
    : declarations (upsert nodes new) = declarations nodes := by
  unfold upsert
  split
  · rename_i known
    clear known
    induction nodes with
    | nil => rfl
    | cons n nodes ih =>
      have rest := ih fun m member => apart m (List.mem_cons_of_mem _ member)
      rw [List.map_cons]
      split <;> rename_i same
      · rw [declarations_cons_of_space space, declarations_cons_of_space (apart n (by simp) same), rest]
      · cases kind : n.isSpace with
        | true => rw [declarations_cons_of_space kind, declarations_cons_of_space kind, rest]
        | false => rw [declarations_cons kind, declarations_cons kind, rest]
  · simp [declarations_cons_of_space space]

/-- The nodes of a new outline are added one after the other, namespaces apart. -/
theorem Outline.New.declarations_upsertAll {source : String → Part → Prop} (h : o.New source known)
    (old : ∀ n ∈ nodes, n.id ∈ known ∧ ∃ key, n.id = .ofKey key n.kind)
    : declarations (upsertAll nodes o.nodes) = declarations nodes ++ declarations o.nodes := by
  induction h generalizing nodes with
  | done => simp
  | @entry known node inside after origin fresh _ inner _ inside_ih after_ih =>
    obtain ⟨path, p, _, stands⟩ := origin
    have old' : ∀ n ∈ upsert nodes node, n.id ∈ known ++ [node.id] ∧ ∃ key, n.id = .ofKey key n.kind := by
      intro n member
      rcases mem_of_mem_upsert member with before | rfl
      · exact ⟨List.mem_append_left _ (old n before).1, (old n before).2⟩
      · exact ⟨by simp, stands.id_eq⟩
    have old'' : ∀ n ∈ upsertAll (upsert nodes node) inside.nodes,
        n.id ∈ known ++ node.id :: inside.ids ∧ ∃ key, n.id = .ofKey key n.kind := by
      intro n member
      rcases mem_of_mem_upsertAll member with before | new
      · have there := old' n before
        exact ⟨by simp only [List.mem_append, List.mem_cons] at there ⊢; grind, there.2⟩
      · obtain ⟨_, _, _, stands⟩ := inner.origin_of_mem new
        exact ⟨List.mem_append_right _ (List.mem_cons_of_mem _ (List.mem_map_of_mem new)), stands.id_eq⟩
    rw [nodes_entry, upsertAll_cons, upsertAll_append, after_ih old'', inside_ih old']
    cases kind : node.isSpace with
    | true =>
      rw [declarations_cons_of_space kind, declarations_append, declarations_upsert_of_space kind]
      · simp
      · intro n member same
        obtain ⟨key, named⟩ := (old n member).2
        obtain ⟨key', named'⟩ := stands.id_eq
        rw [same, named', NodeId.ofKey_inj] at named
        exact Node.isSpace_iff.mpr (named.1.symm.trans (Node.isSpace_iff.mp kind))
    | false =>
      have new : node.id ∉ nodes.map Node.id := by
        intro member
        obtain ⟨n, inside, same⟩ := List.mem_map.mp member
        rcases fresh with space | free
        · simp [kind] at space
        · exact free (taken_of_mem (same ▸ (old n inside).1))
      rw [upsert_of_fresh new, declarations_cons kind]
      simp [declarations_cons kind]

/-- What is alike a declared node is no namespace. -/
theorem isSpace_of_alike {y z : Node} (left : ∃ key, y.id = .ofKey key y.kind)
    (right : ∃ key, z.id = .ofKey key z.kind) (alike : z.id.Alike y.id) (other : y.isSpace = false)
    : z.isSpace = false := by
  obtain ⟨key, named⟩ := left
  obtain ⟨key', named'⟩ := right
  rw [named, named'] at alike
  rw [Bool.eq_false_iff, ne_eq, Node.isSpace_iff, alike.kind_eq, ← Node.isSpace_iff]
  simp [other]

/-- No two declared nodes are alike: each is new after those before it. -/
theorem Outline.New.pairwise {source : String → Part → Prop} (h : o.New source known)
    : (declarations o.nodes).Pairwise fun a b => ¬ a.id.Alike b.id := by
  induction h with
  | done => exact .nil
  | @entry known node inside after _ _ _ inner rest inside_ih after_ih =>
    have across : ∀ a ∈ declarations inside.nodes, ∀ b ∈ declarations after.nodes,
        ¬ a.id.Alike b.id := by
      intro a left b right alike
      rw [mem_declarations] at left right
      rcases rest.fresh_of_mem right.1 with space | new
      · simp [right.2] at space
      · refine new ⟨a.id, ?_, alike⟩
        simp [Outline.ids, List.mem_map_of_mem left.1]
    have rest_pairwise : (declarations (inside.nodes ++ after.nodes)).Pairwise fun a b =>
        ¬ a.id.Alike b.id := by
      rw [declarations_append, List.pairwise_append]
      exact ⟨inside_ih, after_ih, across⟩
    cases kind : node.isSpace with
    | true =>
      rw [Outline.nodes_entry, declarations_cons_of_space kind]
      exact rest_pairwise
    | false =>
      rw [Outline.nodes_entry, declarations_cons kind, List.pairwise_cons]
      refine ⟨fun b member alike => ?_, rest_pairwise⟩
      rw [mem_declarations, List.mem_append] at member
      have new : b.isSpace ∨ ¬ Taken (known ++ [node.id]) b.id := by
        rcases member.1 with within | later
        · exact inner.fresh_of_mem within
        · exact (rest.fresh_of_mem later).imp_right fun free taken => free (by
            simp only [taken_append, taken_cons] at taken ⊢
            grind)
      rcases new with space | free
      · simp [member.2] at space
      · exact free ⟨node.id, by simp, alike⟩

end DesignMetrics
