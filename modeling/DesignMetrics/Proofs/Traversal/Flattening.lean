import DesignMetrics.Proofs.Binding.Flattening
import DesignMetrics.Proofs.Traversal.Seen

/-! Walks through files that differ in how chains of conditions are nested.
The branches of a chain are visited in the order of the source, however it is nested, and only the
statements that hold them differ in number. Apart from these, the walks meet the same in the same order,
and they end the same way.
-/

namespace DesignMetrics

namespace Registry.Reshaped

variable {r r' : Registry}

theorem node? (h : r.Reshaped r') (id : NodeId)
    : (r.node? id).map Node.flattened = (r'.node? id).map Node.flattened :=
  node?_congr Node.seeing_flattened.id h.same id

theorem namespaceNamed (h : r.Reshaped r') (name : String)
    : r.namespaceNamed name = r'.namespaceNamed name :=
  Node.seeing_flattened.namespaceNamed h.node? name

/-- Types have no bodies. -/
theorem sameTypes (h : r.Reshaped r') : r.SameTypes r' :=
  .of_seen Node.seeing_flattened (fun _ => rfl) (fun _ => rfl) h.node? (.of_eq h.same)

end Registry.Reshaped

namespace Walk

theorem each_singleton {α : Type} (walk : α → Walk) (a : α) : each walk [a] = walk a := by
  rcases first : walk a with ⟨events, _ | fault⟩ <;> simp [each, done, first]

/-- What comes after some items can be visited in another way. -/
theorem each_append_congr {α : Type} {walk : α → Walk} {last last' : List α}
    (same : each walk last = each walk last') (items : List α)
    : each walk (items ++ last) = each walk (items ++ last') := by
  induction items with
  | nil => exact same
  | cons a items ih => simp only [List.cons_append, each, ih]

end Walk

namespace Visit

def isIf : Visit → Bool
  | .stmt s => s.isIf
  | _ => false

def flattened : Visit → Visit
  | .unit u => .unit u.flattened
  | .method m => .method m.flattened
  | .function f => .function f.flattened
  | .stmt s => .stmt s.flattened
  | .expr e => .expr e.flattened
  | v => v

def unlessIf? (v : Visit) : Option Visit := if v.isIf then none else some v

def flattened? (v : Visit) : Option Visit := if v.isIf then none else some v.flattened

theorem isIf_flattened (v : Visit) : v.flattened.isIf = v.isIf := by
  cases v with
  | stmt s => cases s <;> rfl
  | _ => rfl

end Visit

def BodiesFlatten (body body' : List Stmt) : Prop :=
  body.map Stmt.flattened = body'.map Stmt.flattened

theorem Node.SeenAlike.of_flattened {n n' : Node} (same : n.flattened = n'.flattened)
    : SeenAlike Visit.flattened? BodiesFlatten n n' := by
  cases n <;> cases n' <;> simp only [Node.flattened, reduceCtorEq] at same
  case space.space n n' => exact .space n n'
  case type.type => exact Node.type.inj same ▸ .type rfl rfl rfl
  case method.method m m' =>
    have fields := Node.method.inj same
    have bodies : BodiesFlatten (m.body.getD []) (m'.body.getD []) := by
      rw [BodiesFlatten, ← Option.getD_map (List.map _), ← Option.getD_map (List.map _)]
      exact congrArg (fun m => m.body.getD []) fields
    exact .method (congrArg (fun m => some (Visit.method m)) fields) bodies
  case function.function f f' =>
    have fields := Node.function.inj same
    exact .function (congrArg (fun f => some (Visit.function f)) fields)
      (congrArg FunctionNode.body fields.symm).symm
  case property.property => exact Node.property.inj same ▸ .property rfl

namespace Walk

def withoutIfs (w : Walk) : Walk := w.seen Visit.unlessIf?

def flattened (w : Walk) : Walk := w.seen Visit.flattened?

theorem withoutIfs_flattened (w : Walk) : w.flattened.withoutIfs = w.flattened := by
  have twice (e : Event) : (e.seen? Visit.flattened?).bind (Event.seen? Visit.unlessIf?)
      = e.seen? Visit.flattened? := by
    cases e with
    | enter v | leave v =>
      cases kind : v.isIf <;>
        simp [Event.seen?, Visit.flattened?, Visit.unlessIf?, Visit.isIf_flattened, kind]
  simp only [withoutIfs, flattened, seen, List.filterMap_filterMap, twice]

section

variable {r r' : Registry} {declared : NodeId → Walk}

/-- A chain is seen as its branches alone. -/
theorem withoutIfs_part_of_isIf {s : Stmt} (h : s.isIf)
    : (part r declared (.stmt s)).withoutIfs
      = each (fun p => (part r declared p).withoutIfs) s.parts := by
  cases s <;> simp [Stmt.isIf] at h
  rw [part_eq]
  refine (seen_inside_of_none ?_ _).trans (seen_each _ _)
  rfl

/-- It is not seen whether chains have been joined. -/
theorem withoutIfs_part_flattenIf (s : Stmt)
    : (part r declared (.stmt s.flattenIf)).withoutIfs = (part r declared (.stmt s)).withoutIfs := by
  rcases s.flattenIf_cases with same | ⟨cond, body, elseIfs, cond', body', elseIfs', last, rfl, same⟩
  · rw [same]
  · obtain ⟨before, nested, joined⟩ := Stmt.parts_joined cond body elseIfs cond' body' elseIfs' last
    rw [same, withoutIfs_part_of_isIf rfl, withoutIfs_part_of_isIf rfl, nested, joined]
    refine each_append_congr ?_ before
    rw [each_singleton, withoutIfs_part_of_isIf rfl]

/-- What is entered at a part is seen alike if it is flattened afterwards or the part was before. -/
theorem flattened?_visit? (spaces : ∀ name, r.namespaceNamed name = r'.namespaceNamed name) (p : Part)
    : (p.visit? r).map Visit.flattened?
      = ((p.inner Stmt.flattenIf).visit? r').map Visit.unlessIf? := by
  cases p with
  | expr e => rfl
  | stmt s =>
    cases s with
    | inNamespace d =>
      simp [Part.inner, Stmt.inner, Part.visit?, NamespaceDecl.rewrite_eq, spaces]
      rfl
    | _ => rfl

/-- A walk through a part that has been flattened is seen as the walk through the part, if what markers
in it lead to has been flattened too. The induction is on the size of the part.
-/
theorem flattened_part (spaces : ∀ name, r.namespaceNamed name = r'.namespaceNamed name) (p : Part)
    : (part r declared p).flattened
      = (part r' (fun id => (declared id).flattened) (p.rewrite Stmt.flattenIf)).withoutIfs := by
  let declared' (id : NodeId) : Walk := (declared id).flattened
  have joined : (part r' declared' (p.rewrite Stmt.flattenIf)).withoutIfs
      = (part r' declared' (p.inner Stmt.flattenIf)).withoutIfs := by
    cases p with
    | expr e => rfl
    | stmt s => exact withoutIfs_part_flattenIf (s.inner Stmt.flattenIf)
  have children : (each (part r declared) p.children).flattened
      = (each (part r' declared') (p.inner Stmt.flattenIf).children).withoutIfs := by
    rw [Part.children_inner]
    refine seen_each_congr (List.forall₂_map_right_iff.mpr (List.forall₂_same.mpr fun q child => ?_))
    have := Part.sizeOf_lt_of_mem_children child
    exact flattened_part spaces q
  have visits := flattened?_visit? spaces p
  rw [joined, part_eq, part_eq, Part.marker?_inner]
  cases p.marker? with
  | some id => exact (withoutIfs_flattened (declared id)).symm
  | none =>
    cases left : p.visit? r with
    | none =>
      have right : (p.inner Stmt.flattenIf).visit? r' = none := by simpa [left] using visits.symm
      rw [right]
      rfl
    | some v =>
      obtain ⟨v', right, same⟩ := Option.map_eq_some_iff.mp (visits.symm.trans (congrArg _ left))
      rw [right]
      exact seen_inside_congr same.symm children
termination_by sizeOf p

end

section

variable {r r' : Registry} (h : r.Reshaped r') {declared declared' : NodeId → Walk}
variable (same : ∀ id, (declared id).flattened = (declared' id).flattened)

include h same

/-- Walks through statements with the same flattening are seen alike. -/
theorem flattened_stmts {body body' : List Stmt} (flat : BodiesFlatten body body')
    : (stmts r declared body).flattened = (stmts r' declared' body').flattened := by
  have both {r : Registry} {declared : NodeId → Walk} (body : List Stmt)
      (spaces : ∀ name, r.namespaceNamed name = r'.namespaceNamed name)
      : (stmts r declared body).flattened
        = (stmts r' (fun id => (declared id).flattened) (body.map Stmt.flattened)).withoutIfs :=
    seen_each_congr (List.forall₂_map_right_iff.mpr
      (List.forall₂_same.mpr fun s _ => flattened_part spaces (.stmt s)))
  rw [both body h.namespaceNamed, both body' fun _ => rfl, flat, funext same]

omit same in
/-- Walks through units that differ in the nesting of chains are seen alike. -/
theorem flattened_units {us us' : List CompilationUnit}
    (flat : us.map CompilationUnit.flattened = us'.map CompilationUnit.flattened)
    : (units r us).flattened = (units r' us').flattened := by
  have alike : r.SeenAlike Visit.flattened? BodiesFlatten r' :=
    ⟨h.size, fun id => Node.rel_of_map (fun _ _ => .of_flattened) (h.node? id), flattened_stmts h⟩
  exact seen_units alike ((forall₂_of_map_eq flat).imp fun u u' here =>
    ⟨congrArg (fun u => some (Visit.unit u)) here, congrArg CompilationUnit.statements here⟩)

end

end Walk

end DesignMetrics
