import DesignMetrics.Proofs.Binding.Values
import DesignMetrics.Proofs.Traversal.Observers
import DesignMetrics.Proofs.Traversal.Termination

/-! What the traversal of plain files enters.
Each declared node is entered once, in the order in which the nodes were registered. Declarations
that were shadowed or that stand in closures are passed over.
-/

namespace DesignMetrics

def Visit.IsBare : Visit → Prop
  | .stmt s => s.isDeclaration = false
  | .expr e => (Part.expr e).markers = []
  | _ => True

/-- Nothing is visited in a closed statement but bare statements and expressions. -/
theorem Stmt.Closed.isBare {r : Registry} {s : Stmt} (closed : s.Closed)
    : ∀ q ∈ (Part.stmt s).within, ∀ v, q.visit? r = some v → v.IsBare := by
  intro q inside v visit
  cases q with
  | expr e =>
    obtain rfl : Visit.expr e = v := by simpa [Part.visit?] using visit
    exact closed e inside
  | stmt t =>
    cases t <;> simp [Part.visit?] at visit <;> subst visit <;> trivial

/-- The bodies of bound nodes are closed. -/
theorem Stands.closed {file : SourceFile} (unbound : file.Unbound) {p : Part}
    (part : p ∈ file.parts) {x : Node} (h : Stands file.path p x) : ∀ s ∈ x.statements, s.Closed := by
  have members {d : MethodDecl} {scope : Binding.TypeScope} {ms : List Member} {s : Stmt}
      (declares : p.scope? = some (scope, ms)) (member : .method d ∈ ms) (inside : s ∈ d.body.getD [])
      : .stmt s ∈ p.held := by
    unfold Part.scope? at declares
    split at declares <;> simp at declares <;> obtain ⟨rfl, rfl⟩ := declares <;>
      exact List.mem_map_of_mem (List.mem_flatMap.mpr ⟨.method d, member, inside⟩)
  cases h with
  | function d known =>
    exact closed_draftStmts unbound fun s inside =>
      file.mem_parts_of_held part (List.mem_map_of_mem inside)
  | @method _ scope ms d declares member known =>
    intro s inside
    cases code : d.body with
    | none => simp [Node.statements, code, draftBody] at inside
    | some body =>
      rw [Node.statements, code, draftBody] at inside
      refine closed_draftStmts unbound (fun t here => ?_) s inside
      exact file.mem_parts_of_held part (members declares member (by simpa [code] using here))
  | _ => simp [Node.statements]

/-- Walks through bound units visit bare statements and expressions only. -/
theorem Bound.visits_isBare {files : List SourceFile} {units : List CompilationUnit} {r : Registry}
    {o : Outline} (h : Bound files [] ∅ (units, r) o) (unbound : ∀ file ∈ files, file.Unbound)
    (depth : Nat) : Walk.Visits Visit.IsBare (Walk.unitsTo r depth units) := by
  refine Walk.visits_unitsTo ?_ ?_ ?_ depth
  · intro x _
    cases x <;> trivial
  · intro x there s inside
    refine Stmt.Closed.isBare ?_
    cases kind : x.isSpace with
    | true => cases x <;> simp [Node.isSpace, Node.statements] at kind inside
    | false =>
      have member := (h.laid.mem_iff.mp ⟨there, kind⟩).1
      obtain ⟨_, p, ⟨file, at_file, rfl, part⟩, stands⟩ := h.laid.formed.origin_of_mem member
      exact stands.closed (unbound file at_file) part s inside
  · intro u member
    refine ⟨trivial, fun s inside => Stmt.Closed.isBare ?_⟩
    obtain ⟨file, at_file, known, same⟩ := h.drafted u member
    rw [same] at inside
    exact closed_draftStmts (unbound file at_file) file.everywhere s inside

/-- The declared nodes have the identifiers whose kind is not that of a namespace. -/
theorem Outline.Formed.map_id_declarations {source : String → Part → Prop} {known : List NodeId}
    {o : Outline} (h : o.Formed source known)
    : (declarations o.nodes).map Node.id = o.ids.filter fun id => id.kind? ≠ some .space := by
  rw [declarations, ids, List.filter_map]
  congr 1
  refine List.filter_congr fun n member => ?_
  obtain ⟨_, _, _, stands⟩ := h.origin_of_mem member
  obtain ⟨key, named⟩ := stands.id_eq
  rw [Bool.eq_iff_iff]
  simp [named, Node.isSpace_iff, ← Bool.not_eq_true]

/-- In plain files the traversal enters each declared node once, in the order of the registry, and
these are the nodes that the units have declared. Bare declarations are not entered, and inside of an
expression no node is, wherever its markers would lead.
-/
theorem entered_units_eq_declarations (files : List (SourceFile × String))
    (unbound : ∀ file ∈ files, file.1.Unbound) (plain : Plain (files.map Prod.fst))
    : let units := (bindAll ∅ files).1
      let r := (bindAll ∅ files).2
      let walk := Walk.units r units
      walk.fault = none
      ∧ (∀ (σ φ : Type) [Observer σ φ] (observers : List σ),
          (∀ e (s : σ), ∃ s', Observer.observe r e s = .ok s')
          → (Traversal.follow r walk observers).fault = none)
      ∧ entered walk.events = declarations r.toList
      ∧ (entered walk.events).Pairwise (fun a b => ¬ a.id.Alike b.id)
      ∧ (entered walk.events).map Node.id
          = (units.flatMap CompilationUnit.declared).filter (fun id => id.kind? ≠ some .space)
      ∧ (∀ s, .enter (.stmt s) ∈ walk.events → s.isDeclaration = false)
      ∧ ∀ e, .enter (.expr e) ∈ walk.events
          → ∀ declared, entered (Walk.part r declared (.expr e)).events = [] := by
  intro units r walk
  obtain ⟨o, bound⟩ := bindAll_empty_bound files unbound
  have direct := plain.direct bound.laid bound.marks.bodies
  have fine : walk.fault = none := bound.fault_eq_none (direct.settled bound.laid [])
  have order : entered walk.events = declarations o.nodes := by
    have tour := Walk.tours_unitsTo fine
    rw [bound.marks.marks] at tour
    exact direct.tours_eq bound.laid tour
  have bare := bound.visits_isBare (by simpa using unbound) (r.size + 1)
  refine ⟨fine, fun σ φ _ observers never => Traversal.follow_fault_iff.mpr
      ⟨fine, fun s _ => Traversal.observeAll_ok never walk.events s⟩,
    order.trans bound.laid.nodes.symm, ?_, ?_, fun s visit => bare _ visit, fun e visit declared => ?_⟩
  · rw [order]
    exact bound.laid.formed.pairwise
  · rw [order, bound.laid.formed.map_id_declarations]
    exact congrArg _ bound.declared.symm
  · have markers : (Part.expr e).markers = [] := bare _ visit
    have through := Walk.part_markers r declared (.expr e)
    rw [markers] at through
    exact through.2 (through.1.mpr (by simp))

def nested : SourceFile :=
  let inner : Stmt := .functionDecl ⟨"f", [], none, [], [], ⟨4, 4⟩⟩
  let method : Member := .method ⟨"m", .isPublic, [], none, [], some [inner], ⟨3, 5⟩⟩
  let property : Member := .property ⟨"p", .isPublic, none, none, ⟨2, 2⟩⟩
  let again : Stmt := .classDecl ⟨"a", .none, none, [], [method], ⟨7, 9⟩⟩
  let hidden : Stmt := .classDecl ⟨"B", .none, none, [], [], ⟨10, 10⟩⟩
  ⟨"a.php", [.classDecl ⟨"A", .none, none, [], [property, method], ⟨1, 6⟩⟩, again,
    .expr (.closure [] [] none [hidden])]⟩

/-- The second class and the one in the closure are not entered. -/
theorem entered_units_nested
    : (∀ file ∈ [(nested, "")], file.1.Unbound) ∧ Plain [nested]
      ∧ (Walk.units (bindAll ∅ [(nested, "")]).2 (bindAll ∅ [(nested, "")]).1).fault = none
      ∧ (entered (Walk.units (bindAll ∅ [(nested, "")]).2 (bindAll ∅ [(nested, "")]).1).events).map
          Node.id = [.classType "A", .property "A" "p", .method "A" "m", .function "f"] := by
  have unbound : ∀ file ∈ [(nested, "")], file.1.Unbound := by decide +kernel
  have plain : Plain [nested] := by decide +kernel
  obtain ⟨fine, _, _, _, ids, _⟩ := entered_units_eq_declarations [(nested, "")] unbound plain
  refine ⟨unbound, plain, fine, ids.trans ?_⟩
  decide +kernel

end DesignMetrics
