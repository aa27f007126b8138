import DesignMetrics.Proofs.Binding.Files

/-! Drafts that do not depend on what is known.
A draft in which nothing is shadowed is the same after any identifiers that none of its declarations
stands for, so it can be reused wherever they are free.
-/

namespace DesignMetrics

/-- Whether a draft depends only on whether its declarations are free. -/
structure Steady {α : Type} (d : List NodeId → Drafted α) : Prop where
  fresh : ∀ known, ∀ n ∈ declarations (d known).outline.nodes, ¬ Taken known n.id
  same : ∀ known other, (d known).shadowed = []
    → (∀ n ∈ declarations (d known).outline.nodes, ¬ Taken other n.id) → d other = d known

namespace Steady

variable {α β γ : Type}

theorem const {d : Drafted α} (none : declarations d.outline.nodes = []) : Steady fun _ => d where
  fresh _ _ member := by simp [none] at member
  same _ _ _ _ := rfl

/-- One draft after the other. -/
theorem both {first : List NodeId → Drafted α} {rest : List NodeId → Drafted β} (left : Steady first)
    (f : α → β → γ) (right : Steady rest)
    : Steady fun known => .both f (first known) (rest (known ++ (first known).outline.ids)) where
  fresh known n member := by
    simp only [Drafted.both, Outline.nodes_append, declarations_append, List.mem_append] at member
    rcases member with here | later
    · exact left.fresh known n here
    · exact fun taken => right.fresh _ n later (taken_append.mpr (.inl taken))
  same known other clean free := by
    simp only [Drafted.both, List.append_eq_nil_iff] at clean
    simp only [Drafted.both, Outline.nodes_append, declarations_append, List.mem_append] at free
    have one := left.same known other clean.1 fun n member => free n (.inl member)
    have two := right.same _ (other ++ (first known).outline.ids) clean.2 fun n member taken => by
      rcases taken_append.mp taken with before | inside
      · exact free n (.inr member) before
      · exact right.fresh _ n member (taken_append.mpr (.inr inside))
    rw [one, two]

theorem map {d : List NodeId → Drafted α} (h : Steady d) (f : α → β)
    : Steady fun known => (d known).map f where
  fresh := h.fresh
  same known other clean free := by rw [h.same known other clean free]

/-- A declaration and what is drafted inside it. -/
theorem declare {id : NodeId} {bare bound : β} {node : α → Node} {inside : List NodeId → Drafted α}
    (inner : Steady inside) (named : ∀ a, (node a).id = id ∧ (node a).isSpace = false)
    : Steady fun known => .declare known id bare bound node (inside (known ++ [id])) where
  fresh known n member := by
    unfold Drafted.declare at member
    split at member
    · simp at member
    · rename_i new
      rw [Outline.nodes_entry, declarations_cons (named _).2, List.mem_cons] at member
      rcases member with rfl | within
      · rw [(named _).1]
        exact new
      · simp only [Outline.nodes_done, List.append_nil] at within
        exact fun taken => inner.fresh _ n within (taken_append.mpr (.inl taken))
  same known other clean free := by
    by_cases taken : Taken known id
    · simp [Drafted.declare, taken] at clean
    · simp only [Drafted.declare, taken, if_false] at clean free ⊢
      rw [Outline.nodes_entry, declarations_cons (named _).2] at free
      have new : ¬ Taken other id := by
        have own := free _ List.mem_cons_self
        rwa [(named _).1] at own
      have within := inner.same _ (other ++ [id]) clean fun n member taken => by
        rcases taken_append.mp taken with before | self
        · exact free n (List.mem_cons_of_mem _ (by simpa using member)) before
        · exact inner.fresh _ n member (taken_append.mpr (.inr self))
      rw [within, if_neg new]

end Steady

/-- Opening a namespace takes no identifier. -/
theorem declarations_opening (path : String) (s : Stmt)
    : declarations (s.opening path).nodes = [] :=
  List.filter_eq_nil_iff.mpr fun n member => by simp [Stmt.isSpace_of_mem_opening member]

/-- A draft depends only on whether its declarations are free, by induction on how it is assembled. -/
theorem Assembled.steady {source : String → Part → Prop} {owner : Option String} {n : Nest} {α : Type}
    {d : List NodeId → Drafted α} (h : Assembled source owner n d) : Steady d := by
  induction h with
  | nothing => exact .const rfl
  | opening => exact .const (declarations_opening _ _)
  | map f _ ih => exact ih.map f
  | both f _ _ left right => exact left.both f right
  | type _ _ _ _ _ _ inner => exact inner.declare fun _ => ⟨rfl, rfl⟩
  | callable same _ _ inner => exact inner.declare fun a => ⟨(same a).1, (same a).2.1⟩

theorem SourceFile.steady_draft (file : SourceFile) : Steady file.draft :=
  (file.assembled (List.mem_singleton_self file)).steady

end DesignMetrics
