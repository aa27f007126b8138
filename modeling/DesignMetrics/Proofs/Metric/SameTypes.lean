import DesignMetrics.Metric.Analyzer
import DesignMetrics.Proofs.Traversal.Observers
import DesignMetrics.Proofs.Traversal.Reordering

/-! Analyzers see nothing of a registry but its types and namespaces.
Told the same event up to marks, in registries with the same types, analyzers go to the same state or
refuse for the same reason.
-/

namespace DesignMetrics

/-- Types are taken up one after the other without looking at their marks. -/
theorem foldl_bare {σ : Type} {f g : σ → TypeNode → σ}
    (step : ∀ s {t t'}, t.bare = t'.bare → f s t = g s t') {ts ts' : List TypeNode}
    (same : ts.map TypeNode.bare = ts'.map TypeNode.bare) (s : σ)
    : ts.foldl f s = ts'.foldl g s := by
  induction ts generalizing ts' s with
  | nil =>
    obtain rfl : ts' = [] := by simpa using same.symm
    rfl
  | cons t ts ih =>
    cases ts' with
    | nil => simp at same
    | cons t' ts' =>
      obtain ⟨first, rest⟩ : t.bare = t'.bare ∧ ts.map TypeNode.bare = ts'.map TypeNode.bare := by
        simpa using same
      rw [List.foldl_cons, List.foldl_cons, step s first, ih rest]

section

variable {r r' : Registry} (h : r.SameTypes r')

include h

namespace Coupling

theorem currentType?_sameTypes (c : Coupling)
    : (c.currentType? r).map TypeNode.bare = (c.currentType? r').map TypeNode.bare := by
  unfold currentType?
  cases c.scopes.head? with
  | none => rfl
  | some top =>
    cases kind : top.typeId? with
    | none => simp [kind]
    | some id => simpa [kind] using h.typeNode? id

theorem couple_sameTypes (c : Coupling) {t t' : TypeNode} (same : t.bare = t'.bare)
    : c.couple r t = c.couple r' t' := by
  have related : (c.currentType? r).any (areRelated r t)
      = (c.currentType? r').any (areRelated r' t') := by
    have current := currentType?_sameTypes h c
    cases left : c.currentType? r with
    | none =>
      obtain right : c.currentType? r' = none := by simpa [left] using current.symm
      rw [right]
      rfl
    | some s =>
      obtain ⟨s', right, bare⟩ := Option.map_eq_some_iff.mp (current.symm.trans (congrArg _ left))
      rw [right]
      simp only [Option.any_some, areRelated]
      rw [h.isSubtype same bare.symm, h.isSubtype bare.symm same]
  obtain ⟨cached, rfl⟩ := TypeNode.eq_of_bare same
  unfold couple
  rw [related]

theorem enter_sameTypes (v : Visit) (c : Coupling) : c.enter r v = c.enter r' v := by
  exact congrArg (noteCall v)
    (foldl_bare (fun s => couple_sameTypes h s) (h.references (currentType?_sameTypes h _) v) _)

omit h in
theorem observe_bare (r : Registry) (e : Event) (c : Coupling)
    : c.observe r e.bare = c.observe r e := by
  cases e with
  | enter v | leave v => cases v <;> rfl

theorem observe_sameTypes {e e' : Event} (same : e.bare = e'.bare) (c : Coupling)
    : c.observe r e = c.observe r' e' := by
  rw [← observe_bare r e, ← observe_bare r' e', same]
  cases e'.bare with
  | enter v => exact enter_sameTypes h v c
  | leave v => rfl

end Coupling

namespace Dependency

theorem currentType?_sameTypes (d : Dependency)
    : (d.currentType? r).map TypeNode.bare = (d.currentType? r').map TypeNode.bare := by
  unfold currentType?
  cases d.scopes.head? with
  | none => rfl
  | some top =>
    cases owner : top.owner with
    | none => simp [owner]
    | some id => simpa [owner] using h.typeNode? id

theorem dependOn_sameTypes (d : Dependency) {t t' : TypeNode} (same : t.bare = t'.bare)
    : d.dependOn r t = d.dependOn r' t' := by
  obtain ⟨cached, rfl⟩ := TypeNode.eq_of_bare same
  obtain ⟨place, mark, space⟩ := NamespaceNode.eq_of_plain (h.namespaceNamed t.refs.space)
  unfold dependOn
  simp only [space]
  rfl

theorem enter_sameTypes (v : Visit) (d : Dependency) : d.enter r v = d.enter r' v := by
  have prepared : d.prepare r v = d.prepare r' v := by
    cases v with
    | type n | function n =>
      obtain ⟨place, mark, space⟩ := NamespaceNode.eq_of_plain (h.namespaceNamed n.refs.space)
      simp only [prepare, space]
      rfl
    | _ => rfl
  have reached (d : Dependency) : (targets r (d.currentType? r) v).map TypeNode.bare
      = (targets r' (d.currentType? r') v).map TypeNode.bare := by
    have referred := h.references (currentType?_sameTypes h d) v
    cases v with
    | type t => exact h.superTypes rfl
    | _ => exact referred
  unfold enter
  rw [prepared]
  exact foldl_bare (fun s => dependOn_sameTypes h s) (reached _) _

omit h in
theorem observe_bare (r : Registry) (e : Event) (d : Dependency)
    : d.observe r e.bare = d.observe r e := by
  cases e with
  | enter v | leave v => cases v <;> rfl

theorem observe_sameTypes {e e' : Event} (same : e.bare = e'.bare) (d : Dependency)
    : d.observe r e = d.observe r' e' := by
  rw [← observe_bare r e, ← observe_bare r' e', same]
  cases e'.bare with
  | enter v => exact enter_sameTypes h v d
  | leave v => rfl

end Dependency

namespace NodeCount

theorem enterType_sameTypes (t : TypeNode) (c : NodeCount) : c.enterType r t = c.enterType r' t := by
  obtain ⟨place, mark, space⟩ := NamespaceNode.eq_of_plain (h.namespaceNamed t.refs.space)
  unfold enterType
  simp only [space]
  rfl

omit h in
theorem observe_bare (r : Registry) (e : Event) (c : NodeCount)
    : c.observe r e.bare = c.observe r e := by
  cases e with
  | enter v | leave v => cases v <;> rfl

theorem observe_sameTypes {e e' : Event} (same : e.bare = e'.bare) (c : NodeCount)
    : c.observe r e = c.observe r' e' := by
  rw [← observe_bare r e, ← observe_bare r' e', same]
  cases e'.bare with
  | leave v => rfl
  | enter v =>
    cases v with
    | type t => exact congrArg _ (enterType_sameTypes h t c)
    | method m =>
      obtain ⟨_, _, space⟩ := NamespaceNode.eq_of_plain (h.namespaceNamed m.refs.space)
      have types := congrArg (Option.map TypeNode.id) (h.type? m.refs.declaringType)
      rw [Option.map_map, Option.map_map] at types
      exact enterMethod_congr types (by rw [space]) c
    | function f =>
      obtain ⟨place, mark, space⟩ := NamespaceNode.eq_of_plain (h.namespaceNamed f.refs.space)
      simp only [observe, space]
      rfl
    | _ => rfl

end NodeCount

variable {κ : Type} [CacheStore κ]

omit h in
/-- The place of a namespace does not matter to any analyzer. -/
theorem Analyzer.observe_unplaced (r : Registry) (e : Event) (a : Analyzer κ)
    : a.observe r (e.map Visit.unplaced) = a.observe r e := by
  cases e with
  | enter v | leave v => cases v <;> cases a <;> rfl

theorem Analyzer.observe_sameTypes (e : Event) (a : Analyzer κ) : a.observe r e = a.observe r' e := by
  cases a with
  | coupling c => simp only [observe, c.observe_sameTypes h rfl]
  | nodeCount c => simp only [observe, c.observe_sameTypes h rfl]
  | complexity c => rfl
  | dependency d => simp only [observe, d.observe_sameTypes h rfl]

/-- Events that are the same up to the places of namespaces are taken alike. -/
theorem Analyzer.observeAll_sameTypes {events events' : List Event}
    (same : events.map (Event.map Visit.unplaced) = events'.map (Event.map Visit.unplaced))
    (a : Analyzer κ) : Traversal.observeAll r events a = Traversal.observeAll r' events' a := by
  induction events generalizing events' a with
  | nil =>
    obtain rfl : events' = [] := by simpa using same.symm
    rfl
  | cons e events ih =>
    cases events' with
    | nil => simp at same
    | cons e' events' =>
      obtain ⟨here, later⟩ : e.map Visit.unplaced = e'.map Visit.unplaced
          ∧ events.map (Event.map Visit.unplaced) = events'.map (Event.map Visit.unplaced) := by
        simpa using same
      have step : a.observe r e = a.observe r' e' := by
        rw [← observe_unplaced, here, observe_unplaced, observe_sameTypes h]
      have first : Observer.observe r e a = Observer.observe r' e' a := step
      rw [Traversal.observeAll, Traversal.observeAll, first]
      exact congrArg _ (funext fun b => ih later b)

end

end DesignMetrics
