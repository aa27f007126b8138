import Mathlib.Data.List.Basic
import DesignMetrics.Proofs.Traversal.Tour

/-! How deep a walk has to go.
A walk that ends before its depth is reached is the same within every larger one. One more than the
number of nodes is always enough: the nodes from which walks end become more with each level, until a
level adds none, and then no later level adds any.
-/

namespace DesignMetrics

namespace Walk

/-- Whether a walk comes to an end, with or without a fault, before its bound is reached. -/
def Ends (w : Walk) : Prop := ∀ id, w.fault ≠ some (.endless id)

@[simp] theorem ends_inside (v : Visit) (inner : Walk) : (inside v inner).Ends ↔ inner.Ends := by
  simp [Ends]

def Kept (declared declared' : NodeId → Walk) : Prop :=
  ∀ id, (declared id).Ends → declared' id = declared id

theorem Kept.trans {first second third : NodeId → Walk} (h : Kept first second)
    (next : Kept second third) : Kept first third := by
  intro id ends
  have same := h id ends
  rw [next id (by rwa [same]), same]

theorem each_eq_of_ends {α : Type} {walk walk' : α → Walk} {items : List α}
    (same : ∀ a ∈ items, (walk a).Ends → walk' a = walk a) (ends : (each walk items).Ends)
    : each walk' items = each walk items := by
  induction items with
  | nil => rfl
  | cons a items ih =>
    cases fault : (walk a).fault with
    | some cause =>
      have here : (walk a).Ends := by simpa [each, fault] using ends
      simp [each, same a (by simp) here, fault]
    | none =>
      have here : (walk a).Ends := by simp [Ends, fault]
      have later : (each walk items).Ends := by simpa [each, fault, Ends] using ends
      simp [each, same a (by simp) here, fault,
        ih (fun b member => same b (List.mem_cons_of_mem a member)) later]

section

variable {r : Registry} {declared declared' : NodeId → Walk} (kept : Kept declared declared')

include kept

/-- The walk through a part, by induction on its size. -/
theorem Kept.part (p : Part) (ends : (part r declared p).Ends)
    : part r declared' p = part r declared p := by
  rw [part_eq r declared p] at ends
  rw [part_eq, part_eq]
  cases marker : p.marker? with
  | some id =>
    rw [marker] at ends
    exact kept id ends
  | none =>
    cases visit : p.visit? r with
    | none => rfl
    | some v =>
      simp only [marker, visit, ends_inside] at ends
      have children := each_eq_of_ends
        (fun q child =>
          have := Part.sizeOf_lt_of_mem_children child
          Kept.part q) ends
      simp only [children]
termination_by sizeOf p

theorem Kept.stmts (body : List Stmt) (ends : (stmts r declared body).Ends)
    : stmts r declared' body = stmts r declared body :=
  each_eq_of_ends (fun s _ => kept.part (.stmt s)) ends

theorem Kept.member (owner id : NodeId) (ends : (member r declared owner id).Ends)
    : member r declared' owner id = member r declared owner id := by
  unfold Walk.member at ends ⊢
  split
  · rename_i m found
    simp only [found, ends_inside] at ends
    rw [kept.stmts _ ends]
  · rfl
  · rfl

end

theorem Kept.unitsTo {r : Registry} {depth depth' : Nat}
    (kept : Kept (declaration r depth) (declaration r depth')) {units : List CompilationUnit}
    (ends : (unitsTo r depth units).Ends) : unitsTo r depth' units = unitsTo r depth units := by
  apply each_eq_of_ends _ ends
  intro u _ ends
  unfold unit at ends ⊢
  rw [kept.stmts _ (by simpa using ends)]

section

variable {r : Registry}

/-- What one level keeps, the next level keeps. -/
theorem Kept.next {n m : Nat} (kept : Kept (declaration r n) (declaration r m))
    : Kept (declaration r (n + 1)) (declaration r (m + 1)) := by
  intro id ends
  unfold declaration at ends ⊢
  split
  · rename_i t found
    simp only [found, ends_inside] at ends
    rw [each_eq_of_ends (fun member _ => kept.member t.id member) ends]
  · rename_i f found
    simp only [found, ends_inside] at ends
    rw [kept.stmts _ ends]
  · rfl
  · rfl

/-- A walk that ends is the same within larger bounds. -/
theorem kept_of_le {n m : Nat} (le : n ≤ m) : Kept (declaration r n) (declaration r m) := by
  induction n generalizing m with
  | zero =>
    intro id ends
    exact absurd rfl (ends id)
  | succ n ih =>
    obtain ⟨m, rfl⟩ : ∃ k, m = k + 1 := ⟨m - 1, by omega⟩
    exact (ih (by omega)).next

/-- Once a level adds no walk that ends, no later level does. -/
theorem kept_back {n : Nat} (level : Kept (declaration r (n + 1)) (declaration r n)) {m : Nat}
    (le : n ≤ m) : Kept (declaration r m) (declaration r n) := by
  have levels (k : Nat) : Kept (declaration r (n + k + 1)) (declaration r (n + k)) := by
    induction k with
    | zero => exact level
    | succ k ih => exact ih.next
  obtain ⟨k, rfl⟩ := Nat.exists_eq_add_of_le le
  induction k with
  | zero => exact fun _ _ => rfl
  | succ k ih => exact (levels k).trans (ih (by omega))

open Classical in
noncomputable def reached (r : Registry) (n : Nat) : Nat :=
  r.toList.countP fun x => (declaration r n x.id).Ends

theorem reached_le_size (n : Nat) : reached r n ≤ r.size := by
  simpa [reached, Registry.size, Registry.toList] using List.countP_le_length (l := r.toList)

/-- Whether the walk to an identifier ends is decided by the node that is found there. -/
theorem ends_declaration_iff {id : NodeId} {x : Node} (found : r.node? id = some x) (n : Nat)
    : (declaration r n id).Ends ↔ (declaration r n x.id).Ends := by
  have own : r.node? x.id = some x := Registry.node?_of_mem (Registry.alike_of_node? found).1
  cases n with
  | zero => simp [declaration, Ends, failed]
  | succ n =>
    unfold declaration
    rw [found, own]
    cases x <;> simp [Ends, failed]

open Classical in
/-- A level that adds a walk that ends reaches one more node. The first level is left out: it also
adds the walks to identifiers that have no node.
-/
theorem reached_lt {n : Nat} (more : ¬ Kept (declaration r (n + 2)) (declaration r (n + 1)))
    : reached r (n + 1) < reached r (n + 2) := by
  obtain ⟨id, ends, changed⟩ : ∃ id, (declaration r (n + 2) id).Ends
      ∧ declaration r (n + 1) id ≠ declaration r (n + 2) id := by
    simpa [Kept] using more
  have before : ¬ (declaration r (n + 1) id).Ends :=
    fun h => changed (kept_of_le (Nat.le_succ _) id h).symm
  cases found : r.node? id with
  | none => exact absurd (by simp [declaration, found]) changed
  | some x =>
    rw [ends_declaration_iff found] at ends before
    have there : x ∈ r.toList := (Registry.alike_of_node? found).1
    have kept : Kept (declaration r (n + 1)) (declaration r (n + 2)) := kept_of_le (Nat.le_succ _)
    have grows (y : Node) (ends : (declaration r (n + 1) y.id).Ends)
        : (declaration r (n + 2) y.id).Ends := by
      rwa [kept y.id ends]
    unfold reached
    rw [List.countP_eq_length_filter, List.countP_eq_length_filter]
    have fewer := List.monotone_filter_right r.toList fun y h =>
      decide_eq_true (grows y (of_decide_eq_true h))
    apply Nat.lt_of_le_of_ne fewer.length_le
    intro same
    have later : x ∈ r.toList.filter fun y => (declaration r (n + 2) y.id).Ends :=
      List.mem_filter.mpr ⟨there, decide_eq_true ends⟩
    rw [← fewer.eq_of_length same] at later
    exact before (of_decide_eq_true (List.mem_filter.mp later).2)

/-- One more level than there are nodes is enough for every walk that ends at all. -/
theorem kept_size (n : Nat) : Kept (declaration r n) (declaration r (r.size + 1)) := by
  by_cases level : ∃ k ≤ r.size, Kept (declaration r (k + 2)) (declaration r (k + 1))
  · obtain ⟨k, le, level⟩ := level
    have back : Kept (declaration r (max n (k + 1))) (declaration r (k + 1)) :=
      kept_back level (Nat.le_max_right _ _)
    exact ((kept_of_le (Nat.le_max_left _ _)).trans back).trans (kept_of_le (by omega))
  · -- otherwise every level up to that number reaches one more node than there are before it
    have more (k : Nat) (le : k ≤ r.size + 1) : k ≤ reached r (k + 1) := by
      induction k with
      | zero => omega
      | succ k ih =>
        have step : reached r (k + 1) < reached r (k + 1 + 1) :=
          reached_lt fun kept => level ⟨k, by omega, kept⟩
        have := ih (by omega)
        omega
    have := more (r.size + 1) (by omega)
    have := reached_le_size (r := r) (r.size + 1 + 1)
    omega

end

end Walk

end DesignMetrics
