import DesignMetrics.Proofs.Binding.Files

/-! The first declaration wins.
A declaration whose identifier stands for something already is passed over together with all that is
inside it; each of the others adds a node. Nodes that are there stay as they are, at their places.
-/

namespace DesignMetrics

namespace Nest

def settle (known : List NodeId) : Nest → List NodeId × List NodeId
  | done => ([], [])
  | entry id inside after =>
    if id.kind? ≠ some .space ∧ Taken known id then
      let rest := after.settle known
      (rest.1, id :: rest.2)
    else
      let below := inside.settle (known ++ [id])
      let rest := after.settle (known ++ id :: below.1)
      (id :: (below.1 ++ rest.1), below.2 ++ rest.2)

/-- What is declared first is known to what is declared next. -/
theorem settle_append (known : List NodeId) (n next : Nest)
    : (n ++ next).settle known
      = ((n.settle known).1 ++ (next.settle (known ++ (n.settle known).1)).1,
          (n.settle known).2 ++ (next.settle (known ++ (n.settle known).1)).2) := by
  induction n generalizing known with
  | done => simp [settle]
  | entry id inside after _ ih =>
    rw [entry_append, settle, settle]
    split <;> simp [ih]

/-- A class that is spelled differently the second time is passed over with its methods. -/
example : (entry (.classType "A") (entry (.method "A" "m") done done)
    (entry (.classType "a") (entry (.method "a" "k") done done) done)).settle []
      = ([.classType "A", .method "A" "m"], [.classType "a"]) := by
  decide +kernel

end Nest

def Nest.Foretells {α : Type} (n : Nest) (d : List NodeId → Drafted α) : Prop :=
  ∀ known, ((d known).outline.ids, (d known).shadowed) = n.settle known

namespace Nest.Foretells

variable {α β γ : Type}

theorem nothing (a : α) : done.Foretells fun _ => ({ value := a } : Drafted α) := fun _ => rfl

/-- One draft after the other. -/
theorem both {n next : Nest} {first : List NodeId → Drafted α} {rest : List NodeId → Drafted β}
    (f : α → β → γ) (left : n.Foretells first) (right : next.Foretells rest)
    : (n ++ next).Foretells fun known =>
        .both f (first known) (rest (known ++ (first known).outline.ids)) := by
  intro known
  have one := left known
  have two := right (known ++ (first known).outline.ids)
  rw [Nest.settle_append, ← one, ← two]
  simp [Drafted.both]

/-- A declaration is passed over if its identifier is taken, and else bound with what is inside. -/
theorem declare {n : Nest} {id : NodeId} {bare bound : β} {node : α → Node}
    {inside : List NodeId → Drafted α} (kind : ∃ kind ≠ .space, id.kind? = some kind)
    (named : ∀ a, (node a).id = id) (inner : n.Foretells inside)
    : (entry id n .done).Foretells fun known =>
        .declare known id bare bound node (inside (known ++ [id])) := by
  intro known
  have below := inner (known ++ [id])
  obtain ⟨kind, other, own⟩ := kind
  simp only [Nest.settle, own, Drafted.declare, ← below]
  by_cases taken : Taken known id
  · simp [taken, other]
  · simp [taken, named]

end Nest.Foretells

theorem Stands.kind?_id {path : String} {p : Part} {n : Node} (h : Stands path p n)
    (other : n.isSpace = false) : ∃ kind ≠ .space, n.id.kind? = some kind := by
  obtain ⟨key, named⟩ := h.id_eq
  refine ⟨n.kind, ?_, by rw [named, NodeId.kind?_ofKey]⟩
  rwa [ne_eq, ← Node.isSpace_iff, Bool.not_eq_true]

theorem foretells_opening (path : String) (s : Stmt)
    : s.opened.Foretells fun _ => (⟨(), s.opening path, []⟩ : Drafted Unit) := by
  cases s with
  | inNamespace d =>
    obtain ⟨name, body, span⟩ := d
    cases name with
    | none => exact .nothing ()
    | some name =>
      intro known
      by_cases isGlobal : name.isEmpty
      · simp [Stmt.opened, Stmt.opening, isGlobal, Nest.settle]
      · simp [Stmt.opened, Stmt.opening, isGlobal, Nest.settle, NodeId.space, Node.id]
  | _ => exact .nothing ()

/-- A draft settles the declarations that it nests, by induction on how it is assembled. -/
theorem Assembled.foretells {source : String → Part → Prop} {owner : Option String} {n : Nest}
    {α : Type} {d : List NodeId → Drafted α} (h : Assembled source owner n d) : n.Foretells d := by
  induction h with
  | nothing a => exact .nothing a
  | opening => exact foretells_opening _ _
  | map f _ ih => exact ih
  | both f _ _ left right => exact left.both f right
  | type _ stands _ _ _ _ inner => exact .declare (stands.kind?_id rfl) (fun _ => rfl) inner
  | callable same origin _ inner =>
    obtain ⟨path, p, _, stands⟩ := origin []
    exact .declare ((same _).1 ▸ stands.kind?_id (same _).2.1) (fun a => (same a).1) inner

/-- A node stays at its place unless one with its identifier is put there. -/
theorem getElem?_upsert {nodes : List Node} {n new : Node} {i : Nat} (h : nodes[i]? = some n)
    : (upsert nodes new)[i]? = some (if n.id = new.id then new else n) := by
  unfold upsert
  split
  · simp [h]
  · rename_i absent
    have other : n.id ≠ new.id := fun same =>
      absent (same ▸ List.mem_map_of_mem (List.mem_of_getElem? h))
    obtain ⟨inside, _⟩ := List.getElem?_eq_some_iff.mp h
    rw [List.getElem?_append_left inside, h, if_neg other]

theorem getElem?_upsertAll {nodes : List Node} {n : Node} {i : Nat} (h : nodes[i]? = some n)
    (new : List Node) : ∃ m, (upsertAll nodes new)[i]? = some m ∧ m.id = n.id ∧ (m = n ∨ m ∈ new) := by
  induction new generalizing nodes n with
  | nil => exact ⟨n, h, rfl, .inl rfl⟩
  | cons first new ih =>
    obtain ⟨m, found, same, origin⟩ := ih (getElem?_upsert h)
    refine ⟨m, found, ?_, ?_⟩
    · rw [same]
      split
      · rename_i equal
        exact equal.symm
      · rfl
    · rcases origin with rfl | later
      · split
        · exact .inr List.mem_cons_self
        · exact .inl rfl
      · exact .inr (List.mem_cons_of_mem first later)

/-- Whether everything is declared in the project, under the tag of its kind and not twice. -/
structure Tidy (r : Registry) : Prop where
  own : ∀ n ∈ r.toList, n.isUserDefined
  named : ∀ n ∈ r.toList, ∃ key, n.id = .ofKey key n.kind
  apart : (declarations r.toList).Pairwise fun a b => ¬ a.id.Alike b.id

namespace Tidy

variable {r : Registry}

theorem empty : Tidy ∅ := ⟨by simp, by simp, .nil⟩

theorem tracks (h : Tidy r) : Tracks (r.toList.map Node.id) r := ⟨fun _ => Iff.rfl, h.own⟩

/-- Binding a file adds declarations that are not alike any other. -/
theorem bind (h : Tidy r) (file : SourceFile) (fingerprint : String)
    : Tidy (file.bind fingerprint r).2 := by
  obtain ⟨r', ran, nodes, tracks⟩ := file.bind_eq h.tracks fingerprint
  have new := (file.newIn_draft (List.mem_singleton_self file) (r.toList.map Node.id)).new
  rw [ran]
  refine ⟨tracks.own, fun n member => ?_, ?_⟩
  · have member : n ∈ r'.toList := member
    rw [nodes] at member
    rcases mem_of_mem_upsertAll member with before | added
    · exact h.named n before
    · obtain ⟨_, _, _, stands⟩ := new.origin_of_mem added
      exact stands.id_eq
  · have all : declarations r'.toList = declarations r.toList
        ++ declarations (file.draft (r.toList.map Node.id)).outline.nodes := by
      rw [nodes]
      exact new.declarations_upsertAll fun n member =>
        ⟨List.mem_map_of_mem member, h.named n member⟩
    show (declarations r'.toList).Pairwise _
    rw [all, List.pairwise_append]
    refine ⟨h.apart, new.pairwise, fun a left b right alike => ?_⟩
    rw [mem_declarations] at left right
    rcases new.fresh_of_mem right.1 with space | free
    · simp [right.2] at space
    · exact free ⟨a.id, List.mem_map_of_mem left.1, alike⟩

/-- Binding keeps a registry tidy, file after file. -/
theorem bindAll (h : Tidy r) (files : List (SourceFile × String)) : Tidy (bindAll r files).2 := by
  induction files generalizing r with
  | nil => exact h
  | cons file files ih => exact ih (h.bind file.1 file.2)

/-- Declared nodes that are alike are one. -/
theorem eq_of_alike (h : Tidy r) {m n : Node} (left : m ∈ r.toList) (right : n ∈ r.toList)
    (other : n.isSpace = false) (alike : m.id.Alike n.id) : m = n := by
  have declared := isSpace_of_alike (h.named n right) (h.named m left) alike other
  exact NodeId.eq_of_pairwise h.apart (mem_declarations.mpr ⟨left, declared⟩)
    (mem_declarations.mpr ⟨right, other⟩) alike

/-- Identifiers that are alike stand for the same node, unless they are those of namespaces. -/
theorem node?_eq_of_alike (h : Tidy r) {a b : NodeId} (alike : a.Alike b)
    (other : ∀ n ∈ r.toList, n.id.Alike a → n.isSpace = false) : r.node? a = r.node? b := by
  have found {id : NodeId} {n : Node} (member : n ∈ r.toList) (here : n.id.Alike id)
      (like : n.id.Alike a) : r.node? id = some n :=
    Registry.node?_eq_some_of_only member here fun m inside same =>
      h.eq_of_alike inside member (other n member like) (same.trans here.symm)
  cases at_a : r.node? a with
  | some n =>
    obtain ⟨member, same⟩ := Registry.alike_of_node? at_a
    exact (found member (same.trans alike) same).symm
  | none =>
    cases at_b : r.node? b with
    | none => rfl
    | some n =>
      obtain ⟨member, same⟩ := Registry.alike_of_node? at_b
      have like := same.trans alike.symm
      simp [found member like like] at at_a

/-- A node that is no namespace stays as it is when a file is bound; in the place of a namespace there
may be the same namespace, opened again. -/
theorem getElem?_bind (h : Tidy r) (file : SourceFile) (fingerprint : String) {i : Nat} {n : Node}
    (here : r.toList[i]? = some n)
    : ∃ m, (file.bind fingerprint r).2.toList[i]? = some m ∧ m.id = n.id
      ∧ (m = n ∨ n.isSpace ∧ m.isSpace) := by
  obtain ⟨r', ran, nodes, _⟩ := file.bind_eq h.tracks fingerprint
  have new := (file.newIn_draft (List.mem_singleton_self file) (r.toList.map Node.id)).new
  have there := List.mem_of_getElem? here
  rw [ran]
  obtain ⟨m, found, same, kept | added⟩ :=
    getElem?_upsertAll here (file.draft (r.toList.map Node.id)).outline.nodes
  · exact ⟨m, nodes ▸ found, same, .inl kept⟩
  · -- the identifier is known, so a new node with it is a namespace
    have space : m.isSpace := (new.fresh_of_mem added).resolve_right fun free =>
      free (taken_of_mem (same ▸ List.mem_map_of_mem there))
    obtain ⟨_, _, _, stands⟩ := new.origin_of_mem added
    obtain ⟨key, named⟩ := stands.id_eq
    obtain ⟨key', named'⟩ := h.named n there
    rw [same, named', NodeId.ofKey_inj, Node.isSpace_iff.mp space] at named
    exact ⟨m, nodes ▸ found, same, .inr ⟨Node.isSpace_iff.mpr named.1, space⟩⟩

end Tidy

/-- The first declaration wins. In a registry that any files were bound into, no two types, functions
or methods have identifiers that are equal up to case, so all spellings of a name stand for the same
node. Binding a further file leaves each of its nodes as it is and at its place, namespaces that are
opened again apart, and only adds what the file declares: what it binds and what it passes over,
together with all that is inside, is settled by the identifiers that are there before.
-/
theorem bind_first_wins (files : List (SourceFile × String)) (file : SourceFile) (fingerprint : String)
    : let r := (bindAll ∅ files).2
      let bound := file.bind fingerprint r
      (∀ (i : Nat) (n : Node), r.toList[i]? = some n →
          ∃ m, bound.2.toList[i]? = some m ∧ m.id = n.id ∧ (m = n ∨ n.isSpace ∧ m.isSpace))
      ∧ (∀ id, id ∈ bound.2.toList.map Node.id
          ↔ id ∈ r.toList.map Node.id ∨ id ∈ bound.1.declared)
      ∧ (bound.1.declared, bound.1.shadowed) = file.nest.settle (r.toList.map Node.id)
      ∧ (∀ kind, kind ≠ .space → kind ≠ .property →
          (∀ n ∈ r.toList, n.kind = kind → ∀ m ∈ r.toList,
              Text.lower m.id.text = Text.lower n.id.text → m = n)
          ∧ ∀ s t, Text.lower s = Text.lower t →
              r.node? (.ofKey s kind) = r.node? (.ofKey t kind)) := by
  intro r bound
  have tidy : Tidy r := Tidy.empty.bindAll files
  obtain ⟨r', ran, nodes, _⟩ := file.bind_eq tidy.tracks fingerprint
  have drafted := (file.assembled (List.mem_singleton_self file)).foretells
  refine ⟨fun i n here => tidy.getElem?_bind file fingerprint here, fun id => ?_, ?_,
    fun kind other plain => ⟨fun n right same m left lower => ?_, fun s t lower => ?_⟩⟩
  · simp only [bound, ran, nodes, mem_ids_upsertAll]
    rfl
  · simp only [bound, ran]
    exact drafted (r.toList.map Node.id)
  · obtain ⟨key, named⟩ := tidy.named n right
    obtain ⟨key', named'⟩ := tidy.named m left
    rw [named, named', NodeId.lower_text_inj] at lower
    refine tidy.eq_of_alike left right ?_ ?_
    · rw [Bool.eq_false_iff, ne_eq, Node.isSpace_iff, same]
      exact other
    · rw [named, named', NodeId.alike_ofKey_iff, lower.1, same]
      exact ⟨rfl, .inr ⟨plain, lower.2⟩⟩
  · refine tidy.node?_eq_of_alike (NodeId.alike_ofKey_iff.mpr ⟨rfl, .inr ⟨plain, lower⟩⟩) ?_
    intro n member alike
    obtain ⟨key, named⟩ := tidy.named n member
    rw [named] at alike
    rw [Bool.eq_false_iff, ne_eq, Node.isSpace_iff, alike.kind_eq]
    exact other

end DesignMetrics
