import DesignMetrics.Proofs.Binding.Draft

/-! What binding leaves of statements.
Declarations are replaced by markers or stay as they are; everything else is kept. Expressions are not
bound, so nothing that is declared in a closure leaves a marker.
-/

namespace DesignMetrics

variable {known : List NodeId}

section

variable {path : String}

/-- The statements of a draft are drafts of statements. -/
theorem mem_draftStmts {body : List Stmt} {t : Stmt} (h : t ∈ (draftStmts path known body).value)
    : ∃ s ∈ body, ∃ known, t = (draftStmt path known s).value := by
  induction body generalizing known with
  | nil => simp [draftStmts] at h
  | cons s rest ih =>
    rw [draftStmts, Drafted.both] at h
    rcases List.mem_cons.mp h with rfl | later
    · exact ⟨s, by simp, known, rfl⟩
    · obtain ⟨s', member, found⟩ := ih later
      exact ⟨s', List.mem_cons_of_mem _ member, found⟩

theorem mem_draftBodies {bodies : List (List Stmt)} {t : Stmt}
    (h : t ∈ (draftBodies path known bodies).value.flatten)
    : ∃ body ∈ bodies, ∃ s ∈ body, ∃ known, t = (draftStmt path known s).value := by
  induction bodies generalizing known with
  | nil => simp [draftBodies] at h
  | cons body rest ih =>
    rw [draftBodies, Drafted.both, List.flatten_cons, List.mem_append] at h
    rcases h with first | later
    · obtain ⟨s, member, found⟩ := mem_draftStmts first
      exact ⟨body, by simp, s, member, found⟩
    · obtain ⟨b, member, found⟩ := ih later
      exact ⟨b, List.mem_cons_of_mem _ member, found⟩

/-- A declaration is left alone or replaced by a marker. -/
theorem value_draftStmt_of_declaration (known : List NodeId) {s : Stmt} (h : s.isDeclaration)
    : (draftStmt path known s).value = s ∨ ∃ id, (draftStmt path known s).value = .declared id := by
  have cases {α : Type} {id : NodeId} {node : α → Node} {inside : Drafted α}
      : (Drafted.declare known id s (.declared id) node inside).value = s
        ∨ ∃ id', (Drafted.declare known id s (.declared id) node inside).value = .declared id' := by
    unfold Drafted.declare
    split
    · exact .inl rfl
    · exact .inr ⟨id, rfl⟩
  cases s with
  | classDecl | interfaceDecl | functionDecl =>
    rw [draftStmt]
    exact cases
  | _ => simp [Stmt.isDeclaration] at h

end

/-- What stands in a part of a part stands in the part. -/
theorem Part.within_trans {p q x : Part} (outer : q ∈ p.within) (inner : x ∈ q.within)
    : x ∈ p.within := by
  rw [within_eq] at outer ⊢
  rcases List.mem_cons.mp outer with rfl | deeper
  · rw [within_eq] at inner
    exact inner
  · obtain ⟨child, member, found⟩ := List.mem_flatMap.mp deeper
    exact List.mem_cons_of_mem _
      (List.mem_flatMap.mpr ⟨child, member, within_trans found inner⟩)
termination_by sizeOf p
decreasing_by exact sizeOf_lt_of_mem_children member

def Stmt.Closed (s : Stmt) : Prop := ∀ e, .expr e ∈ (Part.stmt s).within → (Part.expr e).markers = []

/-- Drafts leave no markers in expressions. -/
theorem closed_draftStmt {P : Part → Prop} (plain : ∀ p, P p → p.marker? = none) {path : String}
    (s : Stmt) : s.Everywhere P → ∀ known, (draftStmt path known s).value.Closed := by
  have alone {t : Stmt} (leaf : t.parts = []) : t.Closed := by
    intro e found
    rw [Part.within_eq] at found
    simp [Part.children, leaf] at found
  have declaration {s : Stmt} (kind : s.isDeclaration) (known : List NodeId)
      : (draftStmt path known s).value.Closed := by
    rcases value_draftStmt_of_declaration known kind with same | ⟨id, same⟩
    · rw [same]
      refine alone ?_
      cases s <;> first | rfl | simp [Stmt.isDeclaration] at kind
    · rw [same]
      exact alone rfl
  induction s using Stmt.bodyInduction with
  | classDecl | interfaceDecl | functionDecl => exact fun _ known => declaration rfl known
  | other s kind ih =>
    intro h known e found
    rw [draftStmt_of_other kind, Drafted.both] at found
    have lengths := length_draftBodies path (known ++ (s.opening path).ids) s.bodies
    generalize outcome : draftBodies path (known ++ (s.opening path).ids) s.bodies = d at found lengths
    rw [Part.within_eq, List.mem_cons] at found
    obtain ⟨q, child, inside⟩ := List.mem_flatMap.mp (found.resolve_left (by simp))
    cases q with
    | expr e' =>
      have kept : .expr e' ∈ (s.rebuild d.value).exprs := List.mem_filter.mpr ⟨child, rfl⟩
      rw [Stmt.exprs_rebuild lengths] at kept
      rw [Part.markers, List.filterMap_eq_nil_iff]
      intro x deeper
      exact plain x (h x (Part.mem_all_of_child (List.mem_filter.mp kept).1
        (Part.mem_all_of_mem_within (Part.within_trans inside deeper))))
    | stmt t =>
      have kept : .stmt t ∈ (s.rebuild d.value).parts.filter Part.isStmt :=
        List.mem_filter.mpr ⟨child, rfl⟩
      rw [Stmt.filter_parts, Stmt.bodies_rebuild lengths] at kept
      obtain ⟨t', member, same⟩ := List.mem_map.mp kept
      obtain rfl : t' = t := by simpa using same
      obtain ⟨body, at_body, s', at_s, known', rfl⟩ := mem_draftBodies (outcome ▸ member)
      exact ih body at_body s' at_s (h.bodies body at_body s' at_s) known' e inside

/-- A list of statements in whose expressions nothing is bound. -/
theorem closed_draftStmts {P : Part → Prop} (plain : ∀ p, P p → p.marker? = none) {path : String}
    {body : List Stmt} (h : ∀ s ∈ body, s.Everywhere P)
    : ∀ t ∈ (draftStmts path known body).value, t.Closed := by
  intro t member
  obtain ⟨s, inside, known', rfl⟩ := mem_draftStmts member
  exact closed_draftStmt plain s (h s inside) known'

end DesignMetrics
