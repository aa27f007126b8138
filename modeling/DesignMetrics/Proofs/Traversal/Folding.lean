import DesignMetrics.Proofs.Registry.Folding
import DesignMetrics.Proofs.Traversal.Agreement

/-! Walks through files that differ in the spelling of references.
A walk follows markers and member lists, which hold identifiers of declarations, so it does not depend
on how references are spelled: it meets the same in the same order and ends the same way. What it meets
refers to types that are equal up to case.
-/

namespace DesignMetrics

def Visit.folded : Visit → Visit
  | .unit u => .unit u.folded
  | .space n => .space n
  | .type t => .type t.folded
  | .method m => .method m.folded
  | .function f => .function f.folded
  | .property p => .property p.folded
  | .stmt s => .stmt s.folded
  | .expr e => .expr e.folded

theorem Part.visit?_folded (r : Registry) (p : Part)
    : p.folded.visit? r = (p.visit? r).map Visit.folded := by
  cases p with
  | expr e => rfl
  | stmt s =>
    cases s with
    | inNamespace d =>
      simp [folded, Stmt.folded, visit?, Visit.folded, NamespaceDecl.folded_eq]
    | _ => rfl

def BodiesFold (body body' : List Stmt) : Prop := body.map Stmt.folded = body'.map Stmt.folded

theorem Node.SeenAlike.of_folded {n n' : Node} (same : n.folded = n'.folded)
    : SeenAlike (fun v => some v.folded) BodiesFold n n' := by
  cases n <;> cases n' <;> simp only [Node.folded, reduceCtorEq] at same
  case space.space n n' => exact .space n n'
  case type.type =>
    have fields := Node.type.inj same
    exact .type (by simp only [Visit.folded, fields]) (TypeNode.id_eq_of_folded fields)
      (TypeNode.members_eq_of_folded fields)
  case method.method m m' =>
    have fields := Node.method.inj same
    have bodies : BodiesFold (m.body.getD []) (m'.body.getD []) := by
      rw [BodiesFold, ← Option.getD_map (List.map _), ← Option.getD_map (List.map _)]
      exact congrArg (fun m => m.body.getD []) fields
    exact .method (by simp only [Visit.folded, fields]) bodies
  case function.function f f' =>
    have fields := Node.function.inj same
    exact .function (by simp only [Visit.folded, fields]) (congrArg FunctionNode.body fields.symm).symm
  case property.property =>
    have fields := Node.property.inj same
    exact .property (by simp only [Visit.folded, fields])

namespace Walk

variable {r r' : Registry} (h : r.Respelled r')

include h

theorem folded_stmts {declared declared' : NodeId → Walk}
    (same : ∀ id, (declared id).seen (fun v => some v.folded)
      = (declared' id).seen fun v => some v.folded) {body body' : List Stmt}
    (folds : BodiesFold body body')
    : (stmts r declared body).seen (fun v => some v.folded)
      = (stmts r' declared' body').seen fun v => some v.folded := by
  have visits {p p' : Part} (same : p.folded = p'.folded)
      : (p.visit? r).map (fun v => some v.folded) = (p'.visit? r').map fun v => some v.folded := by
    have spaces (p : Part) : p.visit? r = p.visit? r' := by
      unfold Part.visit?
      split <;> simp [h.namespaceNamed]
    have both (p : Part) (r : Registry) : (p.visit? r).map (fun v => some v.folded)
        = (p.folded.visit? r).map some := by
      rw [Part.visit?_folded, Option.map_map]
      rfl
    rw [both, both, same, spaces]
  have children {p p' : Part} (same : p.folded = p'.folded)
      : List.Forall₂ (fun q q' => q.folded = q'.folded) p.children p'.children :=
    forall₂_of_map_eq (by rw [← Part.children_folded, same, Part.children_folded])
  have markers {p p' : Part} (same : p.folded = p'.folded) : p.marker? = p'.marker? := by
    rw [← p.marker?_folded, same, p'.marker?_folded]
  refine seen_each_congr ((forall₂_of_map_eq folds).imp fun s s' here => ?_)
  exact seen_part same children markers visits (.stmt s)
    (show _ = (Part.stmt s').folded from congrArg Part.stmt here)

/-- Walks through units that differ in the spelling of references are the same up to this. -/
theorem folded_units {us us' : List CompilationUnit}
    (folds : us.map CompilationUnit.folded = us'.map CompilationUnit.folded)
    : (units r us).map Visit.folded = (units r' us').map Visit.folded := by
  have alike : r.SeenAlike (fun v => some v.folded) BodiesFold r' :=
    ⟨h.size, fun id => Node.rel_of_map (fun _ _ => .of_folded) (h.node? id), folded_stmts h⟩
  rw [map_eq_seen, map_eq_seen]
  exact seen_units alike ((forall₂_of_map_eq folds).imp fun u u' here =>
    ⟨by simp only [Visit.folded, here], congrArg CompilationUnit.statements here⟩)

end Walk

namespace Registry.Respelled

variable {r r' : Registry} (h : r.Respelled r') {current current' : Option TypeNode}
variable (currents : current.map TypeNode.folded = current'.map TypeNode.folded)

include h currents

theorem resolveType? {ref ref' : TypeRef} (same : ref.folded = ref'.folded)
    : (r.resolveType? current ref).map TypeNode.foldedId
      = (r'.resolveType? current' ref').map TypeNode.foldedId := by
  have own : (current.bind fun t => r.type? t.qualifiedName).map TypeNode.foldedId
      = (current'.bind fun t => r'.type? t.qualifiedName).map TypeNode.foldedId :=
    map_bind_congr currents fun t t' folds => by
      rw [TypeNode.qualifiedName, TypeNode.id_eq_of_folded folds]
      exact h.type? rfl
  have parent : (current.bind r.parentOf?).map TypeNode.foldedId
      = (current'.bind r'.parentOf?).map TypeNode.foldedId :=
    map_bind_congr currents fun t t' folds =>
      map_bind_congr (congrArg (fun t => t.refs.parent) folds) fun _ _ => typeOfKind? .classType
  cases ref <;> cases ref' <;> simp only [TypeRef.folded, reduceCtorEq, TypeRef.named.injEq] at same
  case named.named => exact h.type? same
  case parentType.parentType => exact parent
  case scalar.scalar => rfl
  all_goals exact own

/-- What is visited refers to types that are equal up to case. -/
theorem references {v v' : Visit} (same : v.folded = v'.folded)
    : (r.references current v).map TypeNode.foldedId
      = (r'.references current' v').map TypeNode.foldedId := by
  have signature {returnType returnType' : Option String}
      {thrown thrown' parameterTypes parameterTypes' : List String}
      (returned : returnType.map Text.lower = returnType'.map Text.lower)
      (raised : thrown.map Text.lower = thrown'.map Text.lower)
      (taken : parameterTypes.map Text.lower = parameterTypes'.map Text.lower)
      : (r.signatureTypes returnType thrown parameterTypes).map TypeNode.foldedId
        = (r'.signatureTypes returnType' thrown' parameterTypes').map TypeNode.foldedId := by
    have names : (thrown ++ parameterTypes).map Text.lower
        = (thrown' ++ parameterTypes').map Text.lower := by
      rw [List.map_append, List.map_append, raised, taken]
    simp only [signatureTypes, List.map_append, ← Option.toList_map]
    rw [map_bind_congr returned fun _ _ => h.type?]
    exact congrArg _ (map_filterMap_congr names fun _ _ => h.type?)
  cases v <;> cases v' <;> simp only [Visit.folded, reduceCtorEq] at same
  case method.method m m' =>
    have refs := congrArg MethodNode.refs (Visit.method.inj same)
    exact signature (congrArg MethodRefs.returnType refs) (congrArg MethodRefs.thrown refs)
      (congrArg MethodRefs.parameterTypes refs)
  case function.function f f' =>
    have refs := congrArg FunctionNode.refs (Visit.function.inj same)
    exact signature (congrArg FunctionRefs.returnType refs) (congrArg FunctionRefs.thrown refs)
      (congrArg FunctionRefs.parameterTypes refs)
  case property.property p p' =>
    have refs := congrArg PropertyNode.refs (Visit.property.inj same)
    simp only [Registry.references, ← Option.toList_map]
    rw [map_bind_congr (congrArg PropertyRefs.typeName refs) fun _ _ => h.type?]
  case stmt.stmt s s' =>
    have caught : s.caughtTypes.map TypeRef.folded = s'.caughtTypes.map TypeRef.folded := by
      rw [← s.caughtTypes_folded, Visit.stmt.inj same, s'.caughtTypes_folded]
    exact map_filterMap_congr caught fun _ _ => h.resolveType? currents
  case expr.expr e e' =>
    have operands : e.classOperand?.map ClassRef.folded = e'.classOperand?.map ClassRef.folded := by
      rw [← e.classOperand?_folded, Visit.expr.inj same, e'.classOperand?_folded]
    simp only [Registry.references, ← Option.toList_map]
    rw [map_bind_congr operands fun owner owner' here => ?_]
    cases owner <;> cases owner' <;>
      simp only [ClassRef.folded, reduceCtorEq, ClassRef.type.injEq] at here
    · exact h.resolveType? currents here
    · rfl
  all_goals rfl

end Registry.Respelled

end DesignMetrics
