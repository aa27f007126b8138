import DesignMetrics.Proofs.Binding.Snapshots
import DesignMetrics.Proofs.Traversal.Termination

/-! Files in which nothing is shadowed.
Every file is then bound as it would be alone, and every type lists exactly the members that are
declared in it. So each declaration has one place, and a walk comes to it once, whatever types and
namespaces are called.
-/

namespace DesignMetrics

namespace Outline

def Owned (o : Outline) : Prop := ∀ e ∈ o.entries, ∀ t, e.1 = .type t → t.members = e.2.markers

theorem owned_done : Owned done := by simp [Owned]

theorem Owned.append {o next : Outline} (first : o.Owned) (second : next.Owned) : (o ++ next).Owned := by
  intro e member
  rw [entries_append, List.mem_append] at member
  rcases member with here | later
  · exact first e here
  · exact second e later

theorem Owned.entry {node : Node} {inside : Outline}
    (own : ∀ t, node = .type t → t.members = inside.markers) (inner : inside.Owned)
    : (Outline.entry node inside .done).Owned := by
  intro e member
  simp only [entries_entry, entries_done, List.append_nil, List.mem_cons] at member
  rcases member with rfl | within
  · exact own
  · exact inner e within

end Outline

variable {known : List NodeId}

/-- A declaration that is not shadowed is new, and nothing inside it is shadowed. -/
theorem Drafted.clean_declare {α β : Type} {id : NodeId} {bare bound : β} {node : α → Node}
    {inside : Drafted α} (clean : (declare known id bare bound node inside).shadowed = [])
    : inside.shadowed = []
      ∧ (declare known id bare bound node inside).outline
        = .entry (node inside.value) inside.outline .done := by
  by_cases taken : Taken known id
  · simp [declare, taken] at clean
  · simpa [declare, taken] using clean

section

variable {path : String}

variable {scope : Binding.TypeScope}

/-- The members of a type are listed in the order of their nodes, unless some are shadowed. -/
theorem memberIdsFrom_of_clean {seen : List NodeId} {members : List Member}
    (named : ∀ s ∈ seen, Binding.NamesMember scope.name s) (taken : ∀ s ∈ seen, Taken known s)
    (clean : (draftMembers path scope known members).shadowed = [])
    : Binding.memberIdsFrom scope.name seen members
      = seen ++ (draftMembers path scope known members).outline.markers := by
  induction members generalizing known seen with
  | nil => simp [Binding.memberIdsFrom, draftMembers]
  | cons m members ih =>
    rw [draftMembers, Drafted.both] at clean ⊢
    obtain ⟨first, others⟩ := List.append_eq_nil_iff.mp clean
    unfold Binding.memberIdsFrom
    split
    · rename_i id own
      have member := draftMember_cases path known own
      have new : ¬ Taken known id := by
        intro there
        rw [if_pos there, first] at member
        simp at member
      rw [if_neg new] at member
      obtain ⟨node, rfl, other, outline, _⟩ := member
      have fresh : ¬ Binding.isRepeated seen node.id m := by
        rw [Binding.isRepeated_iff own named]
        rintro ⟨s, member, alike⟩
        exact new ((taken s member).of_alike alike)
      rw [if_neg fresh, ih ?_ ?_ others, Outline.markers_append, outline]
      · simp [Outline.markers, other]
      · exact List.forall_mem_append.mpr ⟨named, List.forall_mem_singleton.mpr ⟨m, own⟩⟩
      · refine List.forall_mem_append.mpr ⟨fun s old => taken_append.mpr (.inl (taken s old)), ?_⟩
        exact List.forall_mem_singleton.mpr (taken_of_mem (by simp [outline]))
    · rename_i none
      simp only [(draftMember_of_none none).1, Outline.done_append, Outline.ids_done,
        List.append_nil] at others ⊢
      exact ih named taken others

end

/-- Without shadowing each type lists what is declared in it, by induction on how the draft is
assembled. -/
theorem Assembled.owned {source : String → Part → Prop} {owner : Option String} {n : Nest} {α : Type}
    {d : List NodeId → Drafted α} (h : Assembled source owner n d) (known : List NodeId)
    (clean : (d known).shadowed = []) : (d known).outline.Owned := by
  induction h generalizing known with
  | nothing => exact Outline.owned_done
  | opening =>
    intro e member t type
    have space := Stmt.isSpace_of_mem_opening (Outline.mem_nodes_of_mem_entries member)
    simp [type, Node.isSpace] at space
  | map f _ ih => exact ih known clean
  | both f _ _ left right =>
    obtain ⟨first, others⟩ := List.append_eq_nil_iff.mp clean
    exact (left known first).append (right _ others)
  | type _ stands declares _ _ _ inner =>
    obtain ⟨members, outline⟩ := Drafted.clean_declare clean
    rw [outline]
    refine .entry ?_ (inner _ members)
    rintro _ ⟨⟩
    rw [(stands.scope_name declares).2]
    exact memberIdsFrom_of_clean (by simp) (by simp) members
  | callable same _ _ inner =>
    obtain ⟨body, outline⟩ := Drafted.clean_declare clean
    rw [outline]
    refine .entry (fun t type => ?_) (inner _ body)
    have other := (same _).2.2.2.symm.trans (congrArg Node.scope? type)
    simp [Node.scope?] at other

theorem SourceFile.owned_draft {file : SourceFile} (clean : (file.draft known).shadowed = [])
    : (file.draft known).outline.Owned :=
  (file.assembled (List.mem_singleton_self file)).owned known clean

def outlineOf (files : List SourceFile) : Outline :=
  files.foldr (fun file o => (file.draft []).outline ++ o) .done

/-- Files without shadowing are bound as each of them is alone, by induction on the files. -/
theorem bindAll_of_clean {files : List SourceFile} (unbound : ∀ file ∈ files, file.Unbound)
    {pairs : List (SourceFile × String)} (sub : pairs.map Prod.fst ⊆ files) {r : Registry}
    (tracks : Tracks known r) (clean : ∀ u ∈ (bindAll r pairs).1, u.shadowed = [])
    : (bindAll r pairs).1 = pairs.map (fun p => (p.1.snapshot p.2).unit)
      ∧ Bound files known r (bindAll r pairs) (outlineOf (pairs.map Prod.fst))
      ∧ (outlineOf (pairs.map Prod.fst)).Owned := by
  induction pairs generalizing known r with
  | nil => exact ⟨rfl, ⟨.done, rfl, rfl, by simp [bindAll]⟩, Outline.owned_done⟩
  | cons pair rest ih =>
    obtain ⟨file, fingerprint⟩ := pair
    have member : file ∈ files := sub (by simp)
    obtain ⟨r', ran, nodes, tracks'⟩ := file.bind_eq tracks fingerprint
    simp only [bindAll, ran] at clean ⊢
    have here : (file.draft known).shadowed = [] := clean _ List.mem_cons_self
    have alone := SourceFile.draft_eq_of_clean here
    obtain ⟨units, others, owned⟩ := ih (fun f inside => sub (List.mem_cons_of_mem _ inside)) tracks'
      fun u later => clean u (List.mem_cons_of_mem _ later)
    have outline : outlineOf (file :: rest.map Prod.fst)
        = (file.draft known).outline ++ outlineOf (rest.map Prod.fst) := by
      rw [← alone]
      rfl
    simp only [List.map_cons, outline]
    refine ⟨?_, ?_, (SourceFile.owned_draft here).append owned⟩
    · rw [units, here, ← alone]
      rfl
    · exact .cons unbound member rfl rfl nodes others

theorem bindAll_empty_of_clean {files : List (SourceFile × String)}
    (unbound : ∀ file ∈ files, file.1.Unbound) (clean : ∀ u ∈ (bindAll ∅ files).1, u.shadowed = [])
    : (bindAll ∅ files).1 = files.map (fun p => (p.1.snapshot p.2).unit)
      ∧ Bound (files.map Prod.fst) [] ∅ (bindAll ∅ files) (outlineOf (files.map Prod.fst))
      ∧ (outlineOf (files.map Prod.fst)).Owned :=
  bindAll_of_clean (by simpa using unbound) (fun _ member => member) Tracks.empty clean

/-- A walk through files without shadowing has no fault and enters each declaration once. -/
theorem Bound.entered_of_owned {files : List SourceFile} {units : List CompilationUnit} {r : Registry}
    {o : Outline} (h : Bound files [] ∅ (units, r) o) (owned : o.Owned)
    : (Walk.units r units).fault = none
      ∧ entered (Walk.units r units).events = declarations r.toList := by
  have laid : Laid (Sourced files) r o := h.laid
  refine h.entered_of_direct
    ⟨fun e member => ?_, fun e member => ?_, fun x member => laid.nodes ▸ member⟩
  · obtain ⟨_, _, shape⟩ := laid.formed.of_mem_entries member
    cases node : e.1 with
    | type t => exact owned e member t node
    | _ => exact node ▸ shape.direct (by rw [node]; rfl)
  · obtain ⟨_, _, shape⟩ := laid.formed.of_mem_entries member
    exact shape.leaf

end DesignMetrics
