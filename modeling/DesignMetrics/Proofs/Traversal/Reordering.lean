import DesignMetrics.Proofs.Registry.Reordering
import DesignMetrics.Proofs.Traversal.Agreement

/-! Walks through registries with the same nodes in another order.
They meet the same, up to the places of namespaces, and end the same way. A walk through units in
another order has the same events, unit by unit.
-/

namespace DesignMetrics

def Visit.unplaced : Visit → Visit
  | .space n => .space n.unplaced
  | v => v

namespace Walk

/-- Walks through the same units are the same up to the places of namespaces. -/
theorem unplaced_units {r r' : Registry} (h : r.Reordered r') (us : List CompilationUnit)
    : (units r us).map Visit.unplaced = (units r' us).map Visit.unplaced := by
  have nodes (n n' : Node) (same : n.unplaced = n'.unplaced)
      : Node.SeenAlike (fun v => some v.unplaced) Eq n n' := by
    cases n <;> cases n' <;> simp only [Node.unplaced, reduceCtorEq] at same
    case space.space n n' => exact .space n n'
    all_goals cases same
    · exact .type rfl rfl rfl
    · exact .method rfl rfl
    · exact .function rfl rfl
    · exact .property rfl
  have visits (p : Part)
      : (p.visit? r).map (fun v => some v.unplaced) = (p.visit? r').map fun v => some v.unplaced := by
    unfold Part.visit?
    split <;> simp [Visit.unplaced, h.namespaceNamed]
  have alike : r.SeenAlike (fun v => some v.unplaced) Eq r' :=
    ⟨h.size, fun id => Node.rel_of_map nodes (h.node? id), seen_stmts_of_visits visits⟩
  rw [map_eq_seen, map_eq_seen]
  exact seen_units alike (List.forall₂_same.mpr fun u _ => ⟨rfl, rfl⟩)

section

variable {r : Registry} {us us' : List CompilationUnit} (same : us.Perm us')

include same

/-- A walk has a fault in every order of the units or in none. -/
theorem units_fault_perm (fine : (units r us).fault = none) : (units r us').fault = none :=
  each_fault_iff.mpr fun u member => each_fault_iff.mp fine u (same.mem_iff.mpr member)

/-- Without a fault the events of the units are put in another order. -/
theorem units_events_perm (fine : (units r us).fault = none)
    : (units r us).events.Perm (units r us').events := by
  have fine' := units_fault_perm same fine
  unfold units unitsTo at fine fine' ⊢
  rw [each_events fine, each_events fine']
  exact same.flatMap_right _

end

end Walk

end DesignMetrics
