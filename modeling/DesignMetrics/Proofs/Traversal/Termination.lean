import Mathlib.Logic.Relation
import DesignMetrics.Proofs.Traversal.Members

/-! When the traversal of bound files ends.
It ends unless a type lists a method that the type itself is declared in: from the type the walk goes
to the method and from the body of the method to the type again. Links of every other kind lead to
nodes that are completed earlier. In plain files there is no such type.
-/

namespace DesignMetrics

variable {o : Outline}

section

variable {source : String → Part → Prop} {r : Registry} {whole : Outline}

/-- If everything leads to what is completed before, no more steps lead on from a node than there are
nodes.
-/
theorem Laid.within (laid : Laid source r whole) (settled : Settled r [] whole.post)
    : ∀ x ∈ declarations r.toList, Within r r.size x := by
  intro x member
  have settled := settled.within (d := 0) (by simp)
  rw [laid.nodes, ← whole.post_perm.mem_iff] at member
  refine (settled x (by simpa using member)).mono ?_
  have fewer : (declarations r.toList).length ≤ r.toList.length := List.length_filter_le _ _
  rw [laid.nodes, ← whole.post_perm.length_eq] at fewer
  simpa [Registry.size, Registry.toList] using fewer

/-- A way that leads on from everything would lead on forever, so an outline with roots from which
every way ends has only such nodes.
-/
theorem Outline.Formed.acc {known : List NodeId} (laid : Laid source r whole)
    (h : o.Formed source known) (placed : Placed r known o)
    (roots : ∀ x ∈ o.roots, x.isSpace = false → Acc (fun y x => Leads r x y) x)
    : ∀ x ∈ declarations o.nodes, Acc (fun y x => Leads r x y) x := by
  induction h with
  | done => simp
  | @entry known n inside after origin fresh shape inner rest inside_ih after_ih =>
    have later := after_ih placed.after fun x root => roots x (List.mem_cons_of_mem _ root)
    cases kind : n.isSpace with
    | true =>
      obtain rfl := shape.leaf kind
      simpa [declarations_cons_of_space kind] using later
    | false =>
      have own := roots n (by simp) kind
      have within := inside_ih placed.inside fun x root other =>
        own.inv (leads_root laid placed shape root other)
      intro x member
      rw [nodes_entry, declarations_cons kind, declarations_append] at member
      rcases List.mem_cons.mp member with rfl | member
      · exact own
      · exact (List.mem_append.mp member).elim (within x) (later x)

/-- Ways that end do not lead back to their start: the cycle could be entered one step later. -/
theorem not_transGen_of_acc {x : Node} (h : Acc (fun y x => Leads r x y) x)
    : ¬ Relation.TransGen (Leads r) x x := by
  induction h with
  | intro x _ ih =>
    intro cycle
    obtain ⟨y, step, rest⟩ := Relation.TransGen.head'_iff.mp cycle
    exact ih y step (.tail' rest step)

/-- A node on a cycle is registered and no namespace. -/
theorem mem_declarations_of_cycle {x : Node} (cycle : Relation.TransGen (Leads r) x x)
    : x ∈ declarations r.toList := by
  obtain ⟨_, ⟨link, member, _⟩, _⟩ := Relation.TransGen.head'_iff.mp cycle
  obtain ⟨_, _, _, _, found⟩ := Relation.TransGen.tail'_iff.mp cycle
  refine mem_declarations.mpr ⟨(Registry.alike_of_node? found).1, ?_⟩
  cases x with
  | space => simp [Node.links] at member
  | _ => rfl

/-- A way back is a cycle. -/
theorem WayBack.cycle (h : WayBack r) : ∃ x, Relation.TransGen (Leads r) x x := by
  obtain ⟨t, m, leads, down⟩ := h
  have down : Relation.TransGen (Leads r) (.method m) (.type t) :=
    Relation.TransGen.mono (fun _ _ step => step.1) _ _ down
  exact ⟨.type t, down.head leads⟩

end

variable {files : List SourceFile} {units : List CompilationUnit} {r : Registry}

section

variable (h : Bound files [] ∅ (units, r) o)

include h

/-- What is found at the markers of units is a type or a function that no other one contains. -/
theorem Bound.marker_found {id : NodeId} (marker : id ∈ units.flatMap fun u => markersIn u.statements)
    : ∃ y ∈ declarations r.toList, r.node? id = some y ∧ Snapshot.isDeclaration y := by
  rw [h.marks.marks, Outline.markers] at marker
  obtain ⟨y, member, rfl⟩ := List.mem_map.mp marker
  rw [List.mem_filter] at member
  have other : y.isSpace = false := by simpa using member.2
  have there := h.laid.placed.mem_of_mem (Outline.mem_nodes_of_mem_roots member.1) other
  refine ⟨y, there, h.laid.node?_eq there (.refl _), ?_⟩
  have owner := h.marks.bodies y member.1
  cases y <;> simp_all [Node.owner?, Node.isSpace, Snapshot.isDeclaration]

/-- If everything leads to what is completed before, the walk has no fault. -/
theorem Bound.fault_eq_none (settled : Settled r [] o.post) : (Walk.units r units).fault = none := by
  rw [Walk.units, Walk.unitsTo, Walk.each_fault_iff]
  intro u member
  rw [Walk.unit, Walk.inside_fault, Walk.stmts_fault_iff]
  intro id inside
  obtain ⟨y, there, found, kind⟩ :=
    h.marker_found (List.mem_flatMap.mpr ⟨u, member, inside⟩)
  exact (Walk.fault_eq_none_of_within h.laid.sound (h.laid.within settled y there) (Nat.le_refl _)
    found).2 kind

/-- If the members that types list are those declared in them, a walk has no fault and enters each
declaration once.
-/
theorem Bound.entered_of_direct (direct : Direct r o)
    : (Walk.units r units).fault = none
      ∧ entered (Walk.units r units).events = declarations r.toList := by
  have laid : Laid (Sourced files) r o := h.laid
  have fine := h.fault_eq_none (direct.settled laid [])
  have tour := Walk.tours_unitsTo fine
  rw [h.marks.marks] at tour
  exact ⟨fine, (direct.tours_eq laid tour).trans laid.nodes.symm⟩

/-- A walk without a fault meets no cycle, because all declared nodes are on it. -/
theorem Bound.not_transGen {depth : Nat} (fine : (Walk.unitsTo r depth units).fault = none) (x : Node)
    : ¬ Relation.TransGen (Leads r) x x := by
  intro cycle
  have tour := Walk.tours_unitsTo fine
  have roots : ∀ x ∈ o.roots, x.isSpace = false → Acc (fun y x => Leads r x y) x := by
    intro x root other
    have there := h.laid.placed.mem_of_mem (Outline.mem_nodes_of_mem_roots root) other
    refine tour.acc ?_ (h.laid.node?_eq there (.refl _))
    rw [h.marks.marks, Outline.markers]
    exact List.mem_map_of_mem (List.mem_filter.mpr ⟨root, by simp [other]⟩)
  have all := h.laid.formed.acc h.laid h.laid.placed roots
  have there := mem_declarations_of_cycle cycle
  rw [h.laid.nodes] at there
  exact not_transGen_of_acc (all x there) cycle

/-- The walk has no fault exactly if there is no way back. -/
theorem Bound.fault_iff : (Walk.units r units).fault = none ↔ ¬ WayBack r := by
  constructor
  · rintro fine back
    obtain ⟨x, cycle⟩ := back.cycle
    exact h.not_transGen fine x cycle
  · intro straight
    exact h.fault_eq_none (h.laid.settled straight)

/-- In plain files there is no way back: a type lists only what is declared in it. -/
theorem Bound.straight (plain : Plain files) : ¬ WayBack r := by
  have direct := plain.direct h.laid h.marks.bodies
  exact h.fault_iff.mp (h.fault_eq_none (direct.settled h.laid []))

end

/-- Files are traversed to the end, with no cycle among the nodes, exactly if no type lists a method
that it is declared in. Plain files have no such type.
-/
theorem units_fault_eq_none_iff_acyclic (files : List (SourceFile × String))
    (unbound : ∀ file ∈ files, file.1.Unbound)
    : let units := (bindAll ∅ files).1
      let r := (bindAll ∅ files).2
      ((∀ x, ¬ Relation.TransGen (Leads r) x x) ↔ ¬ WayBack r)
      ∧ ((∃ depth, (Walk.unitsTo r depth units).fault = none) ↔ ¬ WayBack r)
      ∧ ((Walk.units r units).fault = none ↔ ¬ WayBack r)
      ∧ (Plain (files.map Prod.fst) → ¬ WayBack r) := by
  intro units r
  obtain ⟨o, bound⟩ := bindAll_empty_bound files unbound
  have straight_of (acyclic : ∀ x, ¬ Relation.TransGen (Leads r) x x) : ¬ WayBack r := by
    intro back
    obtain ⟨x, cycle⟩ := back.cycle
    exact acyclic x cycle
  refine ⟨⟨straight_of, fun straight => ?_⟩, ⟨fun ⟨depth, ends⟩ => ?_, fun straight => ?_⟩,
    bound.fault_iff, bound.straight⟩
  · exact bound.not_transGen (bound.fault_iff.mpr straight)
  · exact straight_of (bound.not_transGen ends)
  · exact ⟨r.size + 1, bound.fault_iff.mpr straight⟩

def inMethod : SourceFile :=
  let inner : Stmt := .classDecl ⟨"B", .none, none, [], [], ⟨3, 3⟩⟩
  let method : Member := .method ⟨"m", .isPublic, [], none, [], some [inner], ⟨2, 4⟩⟩
  ⟨"a.php", [.classDecl ⟨"A", .none, none, [], [method], ⟨1, 5⟩⟩]⟩

theorem acyclic_inMethod
    : (∀ file ∈ [(inMethod, "")], file.1.Unbound)
      ∧ ∀ x, ¬ Relation.TransGen (Leads (bindAll ∅ [(inMethod, "")]).2) x x := by
  have unbound : ∀ file ∈ [(inMethod, "")], file.1.Unbound := by decide +kernel
  have fine : (Walk.units (bindAll ∅ [(inMethod, "")]).2 (bindAll ∅ [(inMethod, "")]).1).fault = none := by
    decide +kernel
  obtain ⟨cycle, _, walk, _⟩ := units_fault_eq_none_iff_acyclic [(inMethod, "")] unbound
  exact ⟨unbound, cycle.mpr (walk.mp fine)⟩

def inItself : SourceFile :=
  let method (body : Option (List Stmt)) (span : Span) : Member :=
    .method ⟨"m", .isPublic, [], none, [], body, span⟩
  let inner : Stmt := .interfaceDecl ⟨"A", [], [method none ⟨3, 3⟩], ⟨3, 3⟩⟩
  ⟨"a.php", [.classDecl ⟨"A", .none, none, [], [method (some [inner]) ⟨2, 4⟩], ⟨1, 5⟩⟩]⟩

/-- The interface lists the method of the class, in whose body it is declared itself. -/
theorem wayBack_inItself : WayBack (bindAll ∅ [(inItself, "")]).2 := by
  obtain ⟨c, m, t, nodes, listed, body⟩
      : ∃ c m t, (bindAll ∅ [(inItself, "")]).2.toList = [.type c, .method m, .type t]
        ∧ t.members = [m.id] ∧ m.body = some [.declared t.id] :=
    ⟨_, _, _, rfl, rfl, rfl⟩
  have node? {n : Node} (member : n ∈ (bindAll ∅ [(inItself, "")]).2.toList)
      : (bindAll ∅ [(inItself, "")]).2.node? n.id = some n := Registry.node?_of_mem member
  have up : Leads (bindAll ∅ [(inItself, "")]).2 (.type t) (.method m) :=
    ⟨m.id, by simp [Node.links, listed], node? (n := .method m) (by simp [nodes])⟩
  have marked : (Node.method m).links = [t.id] := by
    simp only [Node.links, body, Option.getD_some, markersIn, List.flatMap_singleton]
    rw [Part.markers_eq]
    rfl
  have down : Leads (bindAll ∅ [(inItself, "")]).2 (.method m) (.type t) :=
    ⟨t.id, by simp [marked], node? (n := .type t) (by simp [nodes])⟩
  refine ⟨t, m, up, .single ⟨down, ?_⟩⟩
  rw [nodes]
  exact .cons _ (List.Sublist.refl _)

/-- The class and its method lead to each other, and no depth is enough for the walk. -/
theorem endless_inItself
    : inItself.Unbound
      ∧ (∃ x, Relation.TransGen (Leads (bindAll ∅ [(inItself, "")]).2) x x)
      ∧ ∀ depth, (Walk.unitsTo (bindAll ∅ [(inItself, "")]).2 depth
          (bindAll ∅ [(inItself, "")]).1).fault ≠ none := by
  have unbound : inItself.Unbound := by decide +kernel
  obtain ⟨o, bound⟩ := bindAll_empty_bound [(inItself, "")] (by simpa using unbound)
  obtain ⟨x, cycle⟩ := wayBack_inItself.cycle
  exact ⟨unbound, ⟨x, cycle⟩, fun depth fine => bound.not_transGen fine x cycle⟩

end DesignMetrics
